import WkcBrowser.Lib.Along
import WkcBrowser.Loader.DocumentThreadableLoader

/-! Which data of a cross-origin load reaches the client. The loader hands on all data, whatever it was
asked for, so that it depends on its callbacks alone. -/

namespace WkcBrowser.Loader

open Wtf Network Lib

/-- Data of the actual request after a check of its response that passed and none that failed. -/
def Notice.Sound (before : List Notice) : Notice → Prop
  | .called purpose (.didReceiveData data) => data ≠ [] →
    purpose = .actual ∧ .checked .actual true ∈ before ∧ ∀ purpose, .checked purpose false ∉ before
  | _ => True

def SoundTrace (trace : List Notice) : Prop :=
  ∀ before notice after, trace = before ++ notice :: after → notice.Sound before

theorem soundTrace_nil : SoundTrace [] := by
  intro before notice after same
  exact absurd same.symm (List.append_ne_nil_of_right_ne_nil _ (List.cons_ne_nil _ _))

theorem soundTrace_snoc (trace : List Notice) (notice : Notice) :
    SoundTrace (trace ++ [notice]) ↔ SoundTrace trace ∧ notice.Sound trace := by
  constructor
  · intro sound
    constructor
    · intro before other after same
      apply sound before other (after ++ [notice])
      rw [same, List.append_assoc, List.cons_append]
    · exact sound trace notice [] rfl
  · rintro ⟨sound, last⟩ before other after same
    rcases List.eq_nil_or_concat after with rfl | ⟨after, final, rfl⟩
    · obtain ⟨rfl, final⟩ := List.append_inj' same rfl
      exact (List.cons.inj final).1 ▸ last
    · rw [List.concat_eq_append, ← List.cons_append, ← List.append_assoc] at same
      exact sound before other after (List.append_inj' same rfl).1

namespace DocumentThreadableLoader

/-- Where data arrives, the preflight is over and a response of the actual request has passed its check.
No response has failed. -/
def Clean (s : DocumentThreadableLoader) : Event → Prop
  | .callback (.didReceiveData data) _ => s.subresourceLoader.isSome → data ≠ [] →
    s.actualRequest = none ∧ .checked .actual true ∈ s.trace ∧
      ∀ purpose, .checked purpose false ∉ s.trace
  | _ => True

/-- The pending request tells what the present load is for. -/
def Purposeful (s : DocumentThreadableLoader) : Prop :=
  ∀ sub, s.subresourceLoader = some sub → (sub.purpose = .actual ↔ s.actualRequest = none)

/-- A step of the loader that gives the client no data. -/
structure Quiet (s s' : DocumentThreadableLoader) : Prop where
  sound : SoundTrace s'.trace ↔ SoundTrace s.trace
  purposeful : s.Purposeful → s'.Purposeful

section
variable {Origin : Type} {web : Web Origin} {origin : Origin}
  {s s' s'' : DocumentThreadableLoader} {sub : SubresourceLoader}

theorem Quiet.refl : Quiet s s := ⟨Iff.rfl, id⟩

theorem Quiet.trans (first : Quiet s s') (second : Quiet s' s'') : Quiet s s'' :=
  ⟨second.sound.trans first.sound, second.purposeful ∘ first.purposeful⟩

theorem Quiet.notice {notice : Notice} (silent : notice.Sound s.trace) : Quiet s (s.notice notice) :=
  ⟨(soundTrace_snoc ..).trans (and_iff_left silent), id⟩

theorem Quiet.cancel : Quiet s (s.cancel sub) := by
  unfold DocumentThreadableLoader.cancel
  split
  · exact .refl
  · exact ⟨(soundTrace_snoc ..).trans (and_iff_left trivial), fun _ _ found => nomatch found⟩

theorem Quiet.call {call : ClientCall} (silent : (Notice.called sub.purpose call).Sound s.trace)
    (cancels : Bool) : Quiet s (s.call sub call cancels) := by
  unfold DocumentThreadableLoader.call
  split
  · exact (Quiet.notice silent).trans .cancel
  · exact .notice silent

theorem Quiet.closed (same : s'.trace = s.trace) (closed : s'.subresourceLoader = none) :
    Quiet s s' where
  sound := by rw [same]
  purposeful _ sub found := by rw [closed] at found; cases found

theorem Quiet.preflightSuccess : Quiet s s.preflightSuccess := by
  unfold DocumentThreadableLoader.preflightSuccess
  split
  · refine ⟨Iff.rfl, fun _ sub found => ?_⟩
    cases Option.some.inj found
    exact iff_of_true rfl rfl
  · exact .refl

theorem Quiet.didReceiveResponse (response : ResourceResponse) (cancels : Bool) :
    Quiet s (s.didReceiveResponse web origin sub response cancels) := by
  have checked : ∀ passed, Quiet s (s.notice (.checked sub.purpose passed)) :=
    fun passed => .notice trivial
  unfold DocumentThreadableLoader.didReceiveResponse
  dsimp only
  split
  · split
    · exact (checked false).trans (.call (by trivial) cancels)
    · exact ⟨(soundTrace_snoc ..).trans (and_iff_left trivial), id⟩
  · split
    · split
      · exact (checked false).trans (.call (by trivial) cancels)
      · exact (checked true).trans (.call (by trivial) cancels)
    · exact .call (by trivial) cancels

/-- Every callback but one gives the client no data. -/
theorem Quiet.receive {callback : Callback} (cancels : Bool)
    (other : ∀ data, callback ≠ .didReceiveData data) :
    Quiet s (s.receive web origin sub cancels callback) := by
  have closed : Quiet s { s with subresourceLoader := none } := .closed rfl rfl
  cases callback with
  | willSendRequest url =>
    change Quiet s (s.willSendRequest web origin sub url cancels)
    unfold DocumentThreadableLoader.willSendRequest
    split
    · exact .call (by trivial) cancels
    · exact .refl
  | didSendData sent total => exact .call (by trivial) cancels
  | didReceiveResponse response => exact .didReceiveResponse response cancels
  | didReceiveData data => exact absurd rfl (other data)
  | didFinishLoading =>
    change Quiet s (s.didFinishLoading sub cancels)
    unfold DocumentThreadableLoader.didFinishLoading
    dsimp only
    split
    · exact closed.trans .preflightSuccess
    · exact closed.trans (.call (by trivial) cancels)
  | didFail => exact closed.trans (.call (by trivial) cancels)
  | didReceiveAuthenticationChallenge =>
    change Quiet s (s.didReceiveAuthenticationChallenge sub cancels)
    unfold DocumentThreadableLoader.didReceiveAuthenticationChallenge
    split
    · exact (Quiet.call (by trivial) cancels).trans .cancel
    · exact .refl
  | receivedCancellation response => exact .call (by trivial) cancels

/-- The data of a callback may be handed on. -/
def Allowed (s : DocumentThreadableLoader) : Event → Prop
  | .callback (.didReceiveData data) _ => ∀ sub, s.subresourceLoader = some sub →
    (Notice.called sub.purpose (.didReceiveData data)).Sound s.trace
  | _ => True

theorem allowed_iff_clean (purposeful : s.Purposeful) (event : Event) :
    s.Allowed event ↔ s.Clean event := by
  unfold Allowed Clean
  split
  · constructor
    · intro allowed isSome
      obtain ⟨sub, found⟩ := Option.isSome_iff_exists.mp isSome
      rw [← purposeful sub found]
      exact allowed sub found
    · intro clean sub found
      rw [Notice.Sound, purposeful sub found]
      exact clean (found ▸ rfl)
  · rfl

/-- Data is handed on as it comes. -/
theorem soundTrace_didReceiveData (data : List Byte) (cancels : Bool) :
    SoundTrace (s.didReceiveData sub data cancels).trace ↔
      SoundTrace s.trace ∧ (Notice.called sub.purpose (.didReceiveData data)).Sound s.trace := by
  rw [← soundTrace_snoc]
  unfold DocumentThreadableLoader.didReceiveData DocumentThreadableLoader.call
  split
  · exact Quiet.cancel.sound
  · rfl

theorem purposeful_step (purposeful : s.Purposeful) (event : Event) :
    (step web origin s event).Purposeful := by
  unfold step
  split
  · exact purposeful
  · rename_i sub found
    cases event with
    | created loaded =>
      dsimp only
      split
      · exact purposeful
      split
      · exact purposeful
      · exact fun _ found => nomatch found
    | callback callback cancels =>
      cases callback with
      | didReceiveData data =>
        change (s.call sub (.didReceiveData data) cancels).Purposeful
        unfold DocumentThreadableLoader.call
        split
        · exact Quiet.cancel.purposeful purposeful
        · exact purposeful
      | _ => exact (Quiet.receive cancels fun _ => Callback.noConfusion).purposeful purposeful
    | cancel => exact Quiet.cancel.purposeful purposeful

/-- What a step adds is sound exactly when it is allowed. -/
theorem soundTrace_step (s : DocumentThreadableLoader) (event : Event) :
    SoundTrace (step web origin s event).trace ↔ SoundTrace s.trace ∧ s.Allowed event := by
  unfold step
  split
  · rename_i none_
    have allowed : s.Allowed event := by
      unfold Allowed
      split
      · intro sub found
        rw [none_] at found
        cases found
      · trivial
    exact (and_iff_left allowed).symm
  · rename_i sub found
    cases event with
    | created loaded =>
      change _ ↔ SoundTrace s.trace ∧ True
      rw [and_true]
      dsimp only
      split
      · rfl
      split <;> rfl
    | callback callback cancels =>
      cases callback with
      | didReceiveData data =>
        apply (soundTrace_didReceiveData data cancels).trans
        apply and_congr_right
        intro _
        simp only [Allowed, found, Option.some.injEq, forall_eq']
      | _ =>
        exact (Quiet.receive cancels fun _ => Callback.noConfusion).sound.trans
          (and_iff_left trivial).symm
    | cancel => exact Quiet.cancel.sound.trans (and_iff_left trivial).symm

theorem quiet_create (cache : PreflightResultCache) (request : ResourceRequest)
    (options : ThreadableLoaderOptions) :
    (create web origin cache request options).Purposeful ∧
      SoundTrace (create web origin cache request options).trace := by
  have silent : SoundTrace ([] ++ [Notice.called .actual .didFail]) :=
    (soundTrace_snoc ..).mpr ⟨soundTrace_nil, trivial⟩
  unfold create
  dsimp only
  split
  · exact ⟨fun _ found => (Option.some.inj found) ▸ iff_of_true rfl rfl, soundTrace_nil⟩
  split
  · exact ⟨fun _ found => (nomatch found), silent⟩
  split
  · unfold makeSimpleCrossOriginAccessRequest
    split
    · exact ⟨fun _ found => (nomatch found), silent⟩
    · exact ⟨fun _ found => (Option.some.inj found) ▸ iff_of_true rfl rfl, soundTrace_nil⟩
  split
  · exact ⟨fun _ found => (Option.some.inj found) ▸ iff_of_true rfl rfl, soundTrace_nil⟩
  · exact ⟨fun _ found => (Option.some.inj found) ▸ iff_of_false Purpose.noConfusion nofun,
      soundTrace_nil⟩

/-- A run gives the client only the data that it may have exactly when data arrives only while it may
be handed on. -/
theorem soundTrace_iff_clean (web : Web Origin) (origin : Origin) (cache : PreflightResultCache)
    (request : ResourceRequest) (options : ThreadableLoaderOptions) (events : List Event) :
    SoundTrace (after (step web origin) (create web origin cache request options) events).trace ↔
      Along (step web origin) Clean (create web origin cache request options) events := by
  obtain ⟨purposeful, sound⟩ : (create web origin cache request options).Purposeful ∧
      SoundTrace (create web origin cache request options).trace := quiet_create ..
  rw [after_iff_along (fun s event later => ((soundTrace_step s event).mp later).1) _ _ sound]
  apply along_iff (fun s => s.Purposeful ∧ SoundTrace s.trace) _ _ _ _ ⟨purposeful, sound⟩
    (along_of_forall (fun _ _ => trivial) _ _)
  · intro s event invariant _
    rw [soundTrace_step, and_iff_right invariant.2, allowed_iff_clean invariant.1]
  · exact fun s event invariant _ sound => ⟨purposeful_step invariant.1 event, sound⟩

end

/-- One origin that may only request from nowhere. -/
def exampleWeb : Web Unit where
  platform := examplePlatform
  createFromString _ := ()
  originString _ := text "http://a"
  isSandboxed _ := false
  isSameSchemeHostPort _ _ := true
  canRequest _ _ := false
  protocolInHTTPFamily _ := true
  removeCredentials url := url
  toUIntStrict _ := none
  currentTime := 0

/-- The body of a response to a preflight request is given to the client. -/
theorem not_soundTrace_preflightBody :
    ¬∀ (web : Web Unit) (origin : Unit) (cache : PreflightResultCache) (request : ResourceRequest)
      (options : ThreadableLoaderOptions) (events : List Event),
      web.canRequest origin request.url = false →
      options.crossOriginRequestPolicy = .useAccessControl →
      SoundTrace
        (after (step web origin) (create web origin cache request options) events).trace := by
  intro all
  have sound := all exampleWeb () (fun _ => none)
    { url := text "http://b/", httpMethod := text "PUT" }
    { crossOriginRequestPolicy := .useAccessControl }
    [.created true,
      .callback (.didReceiveResponse { httpHeaderFields :=
        [(text "Access-Control-Allow-Origin", some (text "*")),
          (text "Access-Control-Allow-Methods", some (text "PUT"))] }) false,
      .callback (.didReceiveData [1]) false] rfl rfl
  have delivered := sound [.checked .preflight true] (.called .preflight (.didReceiveData [1])) []
    (by decide)
  have actual := (delivered (List.cons_ne_nil _ _)).1
  cases actual

end DocumentThreadableLoader

end WkcBrowser.Loader
