import WkcBrowser.Network.DownloadTimer

/-! What the calls of clients keep. A callback writes to the internal part of a handle and calls the
client of the job; whatever is kept by these writes and by every act of a client is kept by the
callback. -/

namespace WkcBrowser.Network

open Wtf Lib.Interaction Program ResourceHandleManager
open Lib.Loop (Turn)

section
variable {platform : Platform} {ok : ResourceHandleManager → Event → Prop}
variable {keeps : ResourceHandleManager → Prop} {α β : Type}

variable (platform ok) in
/-- Kept by the writes of the callbacks and by what a client does. -/
structure Closed (keeps : ResourceHandleManager → Prop) : Prop where
  write : ∀ {m : ResourceHandleManager} {job : Nat}
    {f : ResourceHandleInternal → ResourceHandleInternal}, keeps m →
    (∀ d, (f d).handle = d.handle ∧ (f d).isJSRequestatFirst = d.isJSRequestatFirst) →
    keeps (m.write job f)
  enter : ∀ {m : ResourceHandleManager} (entry : Entry), keeps m → keeps (m.enter entry)
  act : ∀ {m : ResourceHandleManager} {event act : Event}, keeps m →
    clientEvent m event = some act → ok m event → keeps (clientAct platform m act)

def Keeps (ok : ResourceHandleManager → Event → Prop) (keeps : ResourceHandleManager → Prop)
    (p : Procedure α) : Prop :=
  ∀ m, keeps m → Meets ok keeps p m fun _ m' => keeps m'

theorem Keeps.pure (a : α) : Keeps ok keeps (pure a) :=
  fun _ kept => meets_pure kept

theorem Keeps.read (f : ResourceHandleManager → α) : Keeps ok keeps (read f) :=
  fun _ kept => meets_read kept

theorem Keeps.bind {p : Procedure α} {f : α → Procedure β} (first : Keeps ok keeps p)
    (second : ∀ a, Keeps ok keeps (f a)) : Keeps ok keeps (p >>= f) := by
  intro m kept
  apply meets_bind
  apply (first m kept).mono
  exact fun a m' kept' => second a m' kept'

theorem Keeps.ite {condition : Prop} [Decidable condition] {p q : Procedure α}
    (yes : Keeps ok keeps p) (no : Keeps ok keeps q) :
    Keeps ok keeps (if condition then p else q) := by
  split
  · exact yes
  · exact no

variable (closed : Closed platform ok keeps) (job : Nat)
include closed

theorem keeps_write {f : ResourceHandleInternal → ResourceHandleInternal}
    (same : ∀ d, (f d).handle = d.handle ∧ (f d).isJSRequestatFirst = d.isJSRequestatFirst) :
    Keeps ok keeps (write job f) :=
  fun _ kept => meets_update (closed.write kept same)

theorem keeps_notify (notice : Notice) : Keeps ok keeps (notify platform job notice) := by
  apply Keeps.bind
  · exact fun m kept => meets_update (closed.enter _ kept)
  · intro _ m kept
    apply meets_loop fun _ => keeps
    · exact fun _ _ kept => kept
    · intro _ m' kept
      apply meets_bind
      apply meets_await kept
      intro event act accepted fine
      apply meets_ite
      · exact fun _ => meets_pure kept
      · intro _
        apply meets_bind
        apply meets_update
        exact meets_pure (closed.act kept accepted fine)
    · exact kept

theorem keeps_notifyClient (notice : Notice) : Keeps ok keeps (notifyClient platform job notice) :=
  .bind (.read _) fun _ => .ite (keeps_notify closed job notice) (.pure _)

theorem keeps_didReceiveAuthenticationChallenge :
    Keeps ok keeps (didReceiveAuthenticationChallenge platform job) := by
  refine .bind (.read _) fun d => .ite (.pure _) (.bind (.read _) fun info => ?_)
  refine .bind (keeps_write closed job fun _ => ⟨rfl, rfl⟩) fun _ => .ite ?_ (.pure _)
  exact keeps_notifyClient closed job _

theorem keeps_didReceiveProxyAuthChallenge :
    Keeps ok keeps (didReceiveProxyAuthChallenge platform job) := by
  refine .bind (.read _) fun d => .ite (.pure _) (.bind (.read _) fun info => ?_)
  refine .bind (.read _) fun auth => .ite (.pure _) (.bind (.read _) fun host => ?_)
  refine .ite (.pure _) (.bind (keeps_write closed job fun _ => ⟨rfl, rfl⟩) fun _ => .ite ?_ (.pure _))
  refine .bind (.read _) fun has => .ite ?_ (keeps_notifyClient closed job _)
  intro m kept
  apply meets_update
  unfold ResourceHandleManager.doAuthChallenge
  split
  · exact kept
  · exact closed.write kept fun _ => ⟨rfl, rfl⟩

theorem keeps_handleLocalReceiveResponse :
    Keeps ok keeps (handleLocalReceiveResponse platform job) := by
  refine .bind (.read _) fun info => .bind (keeps_write closed job fun _ => ⟨rfl, rfl⟩) fun _ => ?_
  refine .bind (keeps_write closed job ?_) fun _ => .bind (.read _) fun d => ?_
  · intro d
    split <;> exact ⟨rfl, rfl⟩
  refine .bind (keeps_notifyClient closed job _) fun _ => .bind (.read _) fun d => ?_
  exact .ite (.pure _) (keeps_write closed job fun _ => ⟨rfl, rfl⟩)

theorem keeps_deliverData (data : List Byte) : Keeps ok keeps (deliverData platform job data) := by
  refine .bind (keeps_notifyClient closed job _) fun _ => .bind (.read _) fun d => ?_
  refine .ite (.pure _) (.bind (keeps_notifyClient closed job _) fun _ => ?_)
  exact .bind (.read _) fun d => .ite (.pure _) (.pure _)

theorem keeps_writeCallback (data : List Byte) :
    Keeps ok keeps (writeCallback platform job data) := by
  have deliver : Keeps ok keeps (deliverData platform job data) := keeps_deliverData closed job data
  refine .bind (.read _) fun d => .ite (.pure _) (.ite (.pure _) ?_)
  refine .bind (.read _) fun info => .ite (.pure _) (.ite (.pure _) (.ite ?_ deliver))
  refine .bind (keeps_handleLocalReceiveResponse closed job) fun _ => .bind (.read _) fun d => ?_
  exact .ite (.pure _) (.bind (.read _) fun d => .ite (.pure _) deliver)

theorem keeps_followRedirect (location : Text) (httpCode totalSize : Nat) :
    Keeps ok keeps (followRedirect platform job location httpCode totalSize) := by
  refine .bind (.read _) fun d => .bind (keeps_notifyClient closed job _) fun _ => ?_
  refine .bind (.read _) fun d => .ite (.pure _) (.bind (keeps_write closed job fun _ => ⟨rfl, rfl⟩) fun _ => ?_)
  exact .pure _

theorem keeps_receiveChallenge (httpCode : Nat) :
    Keeps ok keeps (receiveChallenge platform job httpCode) := by
  have proxy : Keeps ok keeps (do
      if httpCode = 407 ∧ (← internal job).response.isHTTP platform then
        didReceiveProxyAuthChallenge platform job) :=
    .bind (.read _) fun d => .ite (keeps_didReceiveProxyAuthChallenge closed job) (.pure _)
  refine .bind (.read _) fun d => .ite ?_ proxy
  exact .bind (keeps_didReceiveAuthenticationChallenge closed job) fun _ => proxy

theorem keeps_announce (httpCode totalSize : Nat) :
    Keeps ok keeps (announce platform job httpCode totalSize) := by
  refine .bind (.read _) fun d => .ite (.pure _) (.bind (.read _) fun d => .ite (.pure _) ?_)
  refine .bind (.read _) fun d => .ite (keeps_followRedirect closed job _ _ _) ?_
  refine .bind (.read _) fun d => .bind (keeps_notifyClient closed job _) fun _ => ?_
  refine .bind (.read _) fun d => .ite (.pure _) (.bind (keeps_write closed job fun _ => ⟨rfl, rfl⟩) fun _ => ?_)
  exact .pure _

theorem keeps_endOfBlock (totalSize : Nat) : Keeps ok keeps (endOfBlock platform job totalSize) := by
  refine .bind (.read _) fun info => .bind (keeps_write closed job fun _ => ⟨rfl, rfl⟩) fun _ => ?_
  refine .bind (.read _) fun d => ?_
  cases blockCode d.isSSL info with
  | none => exact .pure _
  | some httpCode =>
    refine .bind (keeps_write closed job fun _ => ⟨rfl, rfl⟩) fun _ => ?_
    refine .bind (keeps_receiveChallenge closed job httpCode) fun _ => ?_
    exact keeps_announce closed job httpCode totalSize

theorem keeps_headerCallback (line : List Byte) :
    Keeps ok keeps (headerCallback platform job line) := by
  refine .bind (.read _) fun d => .ite (.pure _) (.bind (keeps_notifyClient closed job _) ?_)
  refine fun _ => .bind (.read _) fun d => .ite (.pure _) (.ite ?_ ?_)
  · exact keeps_endOfBlock closed job _
  · exact .bind (.read _) fun info => .bind (keeps_write closed job fun _ => ⟨rfl, rfl⟩) fun _ => .pure _

theorem keeps_deliverDataUrl (response : ResourceResponse) (out : List Byte) :
    Keeps ok keeps (deliverDataUrl platform job response out) := by
  refine .bind (keeps_notify closed job _) fun _ => .bind (.read _) fun d => .ite (.pure _) ?_
  refine .bind (.read _) fun d => ?_
  have finish : Keeps ok keeps (if d.client then notify platform job .didFinishLoading else pure ()) :=
    .ite (keeps_notify closed job _) (.pure _)
  refine .ite ?_ finish
  refine .bind (keeps_notify closed job _) fun _ => .bind (.read _) fun d => .ite (.pure _) ?_
  refine .bind (keeps_notify closed job _) fun _ => .bind (.read _) fun d => .ite (.pure _) ?_
  exact finish

theorem keeps_parseDataUrl : Keeps ok keeps (parseDataUrl platform job) := by
  refine .bind (.read _) fun d => .ite (.pure _) ?_
  dsimp only
  cases find [44] d.request.url with
  | none => exact keeps_notify closed job _
  | some index => exact keeps_deliverDataUrl closed job _ _

end

end WkcBrowser.Network
