import WkcBrowser.Network.JobLists
import WkcBrowser.Network.Kept

/-! What every call of a client leaves alone. The client may add and cancel jobs meanwhile, but the
jobs that run stay the same, and if it adds a job the timer is active. -/

namespace WkcBrowser.Network

open Wtf Lib.Interaction Program
open Lib.Loop (Turn)

namespace ResourceHandleManager

structure Calm (m m' : ResourceHandleManager) : Prop where
  running : m'.runningJobList = m.runningJobList
  starting : m'.starting = m.starting
  multi : m'.multi = m.multi
  messages : m'.messages = m.messages
  timer : m.downloadTimer = true → m'.downloadTimer = true
  woken : m'.scheduledJobList ≠ [] → m.scheduledJobList ≠ [] ∨ m'.downloadTimer = true

theorem Calm.refl (m : ResourceHandleManager) : Calm m m :=
  ⟨rfl, rfl, rfl, rfl, id, Or.inl⟩

theorem Calm.trans {a b c : ResourceHandleManager} (first : Calm a b) (second : Calm b c) :
    Calm a c where
  running := second.running.trans first.running
  starting := second.starting.trans first.starting
  multi := second.multi.trans first.multi
  messages := second.messages.trans first.messages
  timer := fun active => second.timer (first.timer active)
  woken := by
    intro waits
    rcases second.woken waits with before | active
    · rcases first.woken before with before | active
      · exact Or.inl before
      · exact Or.inr (second.timer active)
    · exact Or.inr active

section
variable (m : ResourceHandleManager) (job : Nat)

theorem calm_write (f : ResourceHandleInternal → ResourceHandleInternal) : Calm m (m.write job f) :=
  ⟨rfl, rfl, rfl, rfl, id, Or.inl⟩

theorem calm_enter (entry : Entry) : Calm m (m.enter entry) :=
  ⟨rfl, rfl, rfl, rfl, id, Or.inl⟩

theorem calm_doAuthChallenge : Calm m (m.doAuthChallenge job) := by
  unfold doAuthChallenge
  split
  · exact Calm.refl m
  · exact m.calm_write job _

theorem calm_add (platform : Platform) (request : ResourceRequest) :
    Calm m (m.add platform request) := by
  have ledger := m.ledger_add platform request
  have timer : (m.add platform request).downloadTimer = true := by
    unfold add
    dsimp only
    split
    · rfl
    · simp_all
  have curl : (m.add platform request).multi = m.multi ∧
      (m.add platform request).messages = m.messages := by
    unfold add appendScheduledJob
    dsimp only
    split_ifs <;> exact ⟨rfl, rfl⟩
  exact ⟨congrArg Ledger.running ledger, congrArg Ledger.starting ledger, curl.1, curl.2,
    fun _ => timer, fun _ => Or.inr timer⟩

theorem calm_cancel : Calm m (m.cancel job) := by
  unfold cancel
  cases removed : m.removeScheduledJob job with
  | some m' =>
    unfold removeScheduledJob at removed
    split at removed
    · obtain rfl := Option.some.inj removed
      refine ⟨rfl, rfl, rfl, rfl, id, fun waits => Or.inl ?_⟩
      intro empty
      apply waits
      simp [deref, change, empty]
    · cases removed
  | none =>
    have calm := m.calm_write job fun d => { d with cancelled := true }
    dsimp only
    split_ifs
    · exact calm
    · exact { calm with timer := fun _ => rfl, woken := fun _ => Or.inr rfl }
    · exact calm

theorem calm_receivedCredential (challenge : AuthenticationChallenge) (credential : Credential) :
    Calm m (m.receivedCredential job challenge credential) := by
  unfold receivedCredential
  split
  · exact Calm.refl m
  · have written := m.calm_write job fun d =>
      { d with webChallenge := some { challenge with proposedCredential := credential } }
    exact written.trans (calm_doAuthChallenge _ job)

theorem calm_continueWithoutCredential (challenge : AuthenticationChallenge) :
    Calm m (m.receivedRequestToContinueWithoutCredential job challenge) := by
  unfold receivedRequestToContinueWithoutCredential
  split
  · exact Calm.refl m
  · exact m.calm_write job _

theorem calm_receivedProxyCredential (credential : Credential) :
    Calm m (m.receivedProxyCredential job credential) := by
  have calm := m.calm_doAuthChallenge job
  exact { calm with }

end

/-- One act of a client. -/
theorem clientAct_calm {m : ResourceHandleManager} (sound : m.ledger.Sound) (platform : Platform)
    (event : Event) :
    (clientAct platform m event).ledger.Sound ∧ Calm m (clientAct platform m event) := by
  cases event with
  | add request => exact ⟨m.ledger_add platform request ▸ sound.submit, m.calm_add platform request⟩
  | cancel job =>
    have entered := m.calm_enter (.cancelled job)
    refine ⟨?_, entered.trans (calm_cancel _ job)⟩
    rcases cancel_ledger (m.enter (.cancelled job)) job with ⟨dropped, waits⟩ | same
    · exact dropped ▸ Ledger.Sound.drop sound waits
    · exact same ▸ sound
  | releaseClient job =>
    have written := ledger_write (m.enter (.released job)) job
      (f := fun d => { d with client := false }) fun _ => rfl
    have calm := calm_write (m.enter (.released job)) job fun d => { d with client := false }
    exact ⟨written ▸ sound, (m.calm_enter _).trans calm⟩
  | receivedCredential job challenge credential =>
    exact ⟨m.ledger_receivedCredential job challenge credential ▸ sound,
      m.calm_receivedCredential job challenge credential⟩
  | receivedRequestToContinueWithoutCredential job challenge =>
    exact ⟨m.ledger_continueWithoutCredential job challenge ▸ sound,
      m.calm_continueWithoutCredential job challenge⟩
  | receivedProxyCredential job credential =>
    exact ⟨m.ledger_receivedProxyCredential job credential ▸ sound,
      m.calm_receivedProxyCredential job credential⟩
  | clearCookies => exact ⟨sound, rfl, rfl, rfl, rfl, id, Or.inl⟩
  | _ => exact ⟨sound, Calm.refl m⟩

end ResourceHandleManager

open ResourceHandleManager

/-- The manager's books are in order. -/
def InOrder (m : ResourceHandleManager) : Prop := m.ledger.Sound

theorem InOrder.of_ledger {m m' : ResourceHandleManager} (sound : InOrder m)
    (same : m'.ledger = m.ledger) : InOrder m' := by
  rw [InOrder, same]
  exact sound

theorem Closed.inOrder {ok : ResourceHandleManager → Event → Prop} (platform : Platform)
    (m : ResourceHandleManager) : Closed platform ok fun m' => InOrder m' ∧ Calm m m' where
  write := fun {m' job f} ⟨sound, calm⟩ same =>
    ⟨sound.of_ledger (m'.ledger_write job fun d => (same d).1), calm.trans (m'.calm_write job f)⟩
  enter := fun {m'} entry ⟨sound, calm⟩ =>
    ⟨sound.of_ledger (m'.ledger_enter entry), calm.trans (m'.calm_enter entry)⟩
  act := by
    intro m' event act ⟨sound, calm⟩ _ _
    obtain ⟨sound', acted⟩ := clientAct_calm sound platform act
    exact ⟨sound', calm.trans acted⟩

section
variable {ok : ResourceHandleManager → Event → Prop} {α : Type}

/-- The procedure calls clients but leaves alone what clients leave alone. -/
def Steady (ok : ResourceHandleManager → Event → Prop) (p : Procedure α) : Prop :=
  ∀ m, InOrder m → Meets ok InOrder p m fun _ m' => InOrder m' ∧ Calm m m'

variable (platform : Platform) (job : Nat)

theorem Steady.of_keeps {p : Procedure α}
    (keeps : ∀ {keeps}, Closed platform ok keeps → Keeps ok keeps p) : Steady ok p := by
  intro m sound
  have kept := keeps (Closed.inOrder platform m) m ⟨sound, Calm.refl m⟩
  exact kept.waits fun _ found => found.1

theorem steady_notifyClient (notice : Notice) : Steady ok (notifyClient platform job notice) :=
  .of_keeps platform fun closed => keeps_notifyClient closed job notice

theorem steady_handleLocalReceiveResponse :
    Steady ok (handleLocalReceiveResponse platform job) :=
  .of_keeps platform fun closed => keeps_handleLocalReceiveResponse closed job

theorem steady_writeCallback (data : List Byte) : Steady ok (writeCallback platform job data) :=
  .of_keeps platform fun closed => keeps_writeCallback closed job data

theorem steady_headerCallback (line : List Byte) :
    Steady ok (headerCallback platform job line) :=
  .of_keeps platform fun closed => keeps_headerCallback closed job line

theorem steady_parseDataUrl : Steady ok (parseDataUrl platform job) :=
  .of_keeps platform fun closed => keeps_parseDataUrl closed job

end

end WkcBrowser.Network
