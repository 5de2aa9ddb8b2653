import WkcBrowser.Loader.CacheEntries

/-! The list of live resources with decoded data. -/

namespace WkcBrowser.MemoryCache

open Lib Requests

variable {Url : Type}

/-- What decides whether a resource belongs on the list, and whether it is there. -/
def CachedResource.view (resource : CachedResource Url) : Bool × List Nat × BitVec 32 × Bool :=
  (resource.inCache, resource.clients, resource.decodedSize, resource.inLiveDecodedResourcesList)

/-- The resource has clients and decoded data in the cache. -/
def CachedResource.liveDecoded (resource : CachedResource Url) : Prop :=
  resource.inCache = true ∧ resource.hasClients = true ∧ resource.decodedSize ≠ 0

/-- A resource without clients of which decoded data is in the cache. -/
def CachedResource.deadDecoded (resource : CachedResource Url) : Prop :=
  resource.inCache = true ∧ resource.hasClients = false ∧ resource.decodedSize ≠ 0

namespace Cache

variable {s s' s'' : Cache Url} {r : Nat}

/-- The list holds the live resources with decoded data and no others. -/
def Complete (s : Cache Url) : Prop :=
  ∃ elements, s.liveDecodedResources.links.Forms s.liveDecodedResources.ends elements ∧
    ∀ r, r ∈ elements ↔ (s.resources r).liveDecoded

/-- The list holds the resources that are marked. -/
def Marked (s : Cache Url) : Prop :=
  s.liveDecodedResources.Holds fun r => (s.resources r).inLiveDecodedResourcesList = true

def Exact (s : Cache Url) : Prop :=
  ∀ r, (s.resources r).inLiveDecodedResourcesList = true ↔ (s.resources r).liveDecoded

/-- Nothing of the list and of what decides about it is different. -/
structure Same (s s' : Cache Url) : Prop where
  view : ∀ r, (s'.resources r).view = (s.resources r).view
  list : s'.liveDecodedResources = s.liveDecodedResources

theorem Marked.complete_iff (marked : Marked s) : Complete s ↔ Exact s := by
  obtain ⟨elements, forms, members⟩ := marked.elements
  constructor
  · rintro ⟨elements', forms', members'⟩ r
    rw [← members r, forms.unique forms']
    exact members' r
  · exact fun exact => ⟨elements, forms, fun r => (members r).trans (exact r)⟩

theorem view_marked {a b : CachedResource Url} (same : a.view = b.view) :
    a.inLiveDecodedResourcesList = b.inLiveDecodedResourcesList := congrArg (·.2.2.2) same

theorem view_liveDecoded {a b : CachedResource Url} (same : a.view = b.view) :
    a.liveDecoded ↔ b.liveDecoded := by
  simp only [CachedResource.view, Prod.mk.injEq] at same
  obtain ⟨inCache, clients, decodedSize, -⟩ := same
  rw [CachedResource.liveDecoded, CachedResource.liveDecoded, CachedResource.hasClients,
    CachedResource.hasClients, inCache, clients, decodedSize]

theorem Same.refl : Same s s := ⟨fun _ => rfl, rfl⟩

theorem Same.trans (first : Same s s') (second : Same s' s'') : Same s s'' :=
  ⟨fun r => (second.view r).trans (first.view r), second.list.trans first.list⟩

theorem Same.modify {change : CachedResource Url → CachedResource Url}
    (same : ∀ resource, (change resource).view = resource.view) : Same s (s.modify r change) :=
  ⟨fun a => modify_keeps CachedResource.view same a, rfl⟩

/-- Only one resource has another view, and the marks are as they were. -/
theorem Marked.congr (marked : Marked s) (list : s'.liveDecodedResources = s.liveDecodedResources)
    (marks : ∀ a, (s'.resources a).inLiveDecodedResourcesList = (s.resources a).inLiveDecodedResourcesList) :
    Marked s' := by
  rw [Marked, list]
  exact LinkedList.Holds.congr marked fun a => by rw [marks]

theorem Marked.modify {change : CachedResource Url → CachedResource Url} (marked : Marked s)
    (marks : ∀ resource, (change resource).inLiveDecodedResourcesList = resource.inLiveDecodedResourcesList) :
    Marked (s.modify r change) :=
  marked.congr rfl fun a => modify_keeps (·.inLiveDecodedResourcesList) marks a

theorem Exact.congr (exact : Exact s) (others : ∀ a, a ≠ r → (s'.resources a).view = (s.resources a).view)
    (this : (s'.resources r).inLiveDecodedResourcesList = true ↔ (s'.resources r).liveDecoded) :
    Exact s' := by
  intro a
  by_cases here : a = r
  · rw [here]
    exact this
  · rw [view_marked (others a here), view_liveDecoded (others a here)]
    exact exact a

section
variable (s)

theorem remove_self : (s.removeFromLiveDecodedResourcesList r).resources r =
    { s.resources r with inLiveDecodedResourcesList := false } := Function.update_self ..

theorem remove_other {a : Nat} (different : a ≠ r) :
    (s.removeFromLiveDecodedResourcesList r).resources a = s.resources a := Function.update_of_ne different ..

theorem insert_self : (s.insertInLiveDecodedResourcesList r).resources r =
    { s.resources r with inLiveDecodedResourcesList := true } := Function.update_self ..

theorem insert_other {a : Nat} (different : a ≠ r) :
    (s.insertInLiveDecodedResourcesList r).resources a = s.resources a := Function.update_of_ne different ..

/-- A resource stays on the list or comes there as its decoded size wants it. -/
theorem move_self : (s.moveInLiveDecodedResourcesList r).resources r =
    { s.resources r with
      inLiveDecodedResourcesList := (s.resources r).decodedSize ≠ 0 &&
        ((s.resources r).inLiveDecodedResourcesList || (s.resources r).hasClients) } := by
  unfold moveInLiveDecodedResourcesList
  dsimp only
  split_ifs with come go
  · rw [insert_self, decide_eq_true come.1, come.2.2, Bool.or_true, Bool.and_true]
  · rw [remove_self, decide_eq_false (not_not.mpr go.1), Bool.false_and]
  · have same : (s.resources r).inLiveDecodedResourcesList = ((s.resources r).decodedSize ≠ 0 &&
        ((s.resources r).inLiveDecodedResourcesList || (s.resources r).hasClients)) := by
      by_cases zero : (s.resources r).decodedSize = 0
      · simpa [zero] using go
      · cases on : (s.resources r).inLiveDecodedResourcesList <;> simp_all
    exact congrArg (fun on => { s.resources r with inLiveDecodedResourcesList := on }) same

theorem move_other {a : Nat} (different : a ≠ r) :
    (s.moveInLiveDecodedResourcesList r).resources a = s.resources a := by
  unfold moveInLiveDecodedResourcesList
  dsimp only
  split_ifs
  · exact s.insert_other different
  · exact s.remove_other different
  · rfl

end

theorem Marked.remove (marked : Marked s) : Marked (s.removeFromLiveDecodedResourcesList r) := by
  have marks (a : Nat) :
      ((s.removeFromLiveDecodedResourcesList r).resources a).inLiveDecodedResourcesList = true ↔
        (s.resources a).inLiveDecodedResourcesList = true ∧ a ≠ r := by
    by_cases here : a = r
    · simp [here, remove_self]
    · simp [here, remove_other]
  by_cases on : (s.resources r).inLiveDecodedResourcesList = true
  · have list : (s.removeFromLiveDecodedResourcesList r).liveDecodedResources =
        s.liveDecodedResources.remove r := if_pos on
    rw [Marked, list]
    exact (LinkedList.Holds.remove marked on).congr marks
  · have list : (s.removeFromLiveDecodedResourcesList r).liveDecodedResources = s.liveDecodedResources :=
      if_neg on
    rw [Marked, list]
    refine LinkedList.Holds.congr marked fun a => (marks a).trans (and_iff_left_of_imp ?_)
    rintro marked_a rfl
    exact on marked_a

theorem Marked.insert (marked : Marked s) (off : (s.resources r).inLiveDecodedResourcesList = false) :
    Marked (s.insertInLiveDecodedResourcesList r) := by
  refine (LinkedList.Holds.insert marked (by rw [off]; decide)).congr fun a => ?_
  by_cases here : a = r
  · simp [here, insert_self]
  · simp [here, insert_other]

theorem Marked.move (marked : Marked s) : Marked (s.moveInLiveDecodedResourcesList r) := by
  unfold moveInLiveDecodedResourcesList
  dsimp only
  split_ifs with come
  · exact marked.insert (Bool.eq_false_iff.mpr come.2.1)
  · exact marked.remove
  · exact marked

/-- What every call keeps that brings no resource with decoded data back to life. -/
structure Sound [DecidableEq Url] (s : Cache Url) : Prop where
  proper : Proper none s
  marked : Marked s
  exact : Exact s

section
variable [DecidableEq Url]

/-- The mark of one resource is all that is to be found out. -/
theorem Sound.step (sound : Sound s) (proper : Proper none s') (marked : Marked s')
    (others : ∀ a, a ≠ r → (s'.resources a).view = (s.resources a).view)
    (this : (s'.resources r).inLiveDecodedResourcesList = true ↔ (s'.resources r).liveDecoded) : Sound s' :=
  ⟨proper, marked, sound.exact.congr others this⟩

theorem Sound.same (sound : Sound s) (proper : Proper none s') (same : Same s s') : Sound s' := by
  refine ⟨proper, sound.marked.congr same.list fun a => view_marked (same.view a), fun a => ?_⟩
  rw [view_marked (same.view a), view_liveDecoded (same.view a)]
  exact sound.exact a

theorem Sound.neutral (sound : Sound s) (alike : Alike s s') (same : Same s s') : Sound s' :=
  sound.same (sound.proper.congr alike) same

theorem Sound.modify (sound : Sound s) {change : CachedResource Url → CachedResource Url}
    (key : ∀ resource, (change resource).key = resource.key)
    (view : ∀ resource, (change resource).view = resource.view) : Sound (s.modify r change) :=
  sound.neutral (Alike.refl.modify key) (Same.modify view)

theorem Sound.inside (sound : Sound s) (out : (s.resources r).inCache = false) :
    (s.resources r).inLiveDecodedResourcesList = false := by
  refine Bool.eq_false_iff.mpr fun on => ?_
  have inside := ((sound.exact r).mp on).1
  rw [out] at inside
  cases inside

omit [DecidableEq Url] in
theorem not_liveDecoded {resource : CachedResource Url} (out : resource.inCache = false) :
    ¬resource.liveDecoded := by
  rintro ⟨inside, -⟩
  rw [out] at inside
  cases inside

theorem leave_self : (s.leave r).resources r =
    { s.resources r with inCache := false, inLiveDecodedResourcesList := false } := by
  unfold leave
  dsimp only [adjustSize]
  rw [remove_self]
  simp only [removeFromLRUList, modify_self]
  rfl

theorem leave_other {a : Nat} (different : a ≠ r) : (s.leave r).resources a = s.resources a := by
  unfold leave
  dsimp only [adjustSize]
  rw [remove_other _ different]
  exact Function.update_of_ne different ..

theorem Marked.leave (marked : Marked s) : Marked (s.leave r) := by
  have removed : Marked (s.removeEntry (s.resources r).url) := marked
  have out := removed.modify (r := r) fun (resource : CachedResource Url) =>
    (rfl : ({ resource with inCache := false } : CachedResource Url).inLiveDecodedResourcesList = _)
  exact out.remove (r := r)

theorem Sound.delete (sound : Sound s) : Sound (s.delete r) := sound.modify (fun _ => rfl) fun _ => rfl

theorem Sound.deleteIfPossible (sound : Sound s) : Sound (s.deleteIfPossible r) := by
  unfold Cache.deleteIfPossible
  split
  · exact sound.delete
  · exact sound

/-- The list after a resource is evicted. -/
theorem evict_listed (marked : Marked s) (exact : Exact s) : Marked (s.evict r) ∧ Exact (s.evict r) := by
  have left : Marked (if (s.resources r).inCache then s.leave r else s) ∧
      Exact (if (s.resources r).inCache then s.leave r else s) := by
    split
    · refine ⟨marked.leave, exact.congr (r := r) (fun a different => ?_) ?_⟩
      · rw [leave_other different]
      · rw [leave_self]
        exact iff_of_false Bool.false_ne_true (not_liveDecoded rfl)
    · exact ⟨marked, exact⟩
  unfold evict
  dsimp only
  generalize (if (s.resources r).inCache then s.leave r else s) = rest at *
  split
  · have same : Same rest (rest.delete r) := Same.modify fun _ => by rfl
    refine ⟨left.1.congr same.list fun a => view_marked (same.view a), fun a => ?_⟩
    rw [view_marked (same.view a), view_liveDecoded (same.view a)]
    exact left.2 a
  · exact left

theorem Sound.evict (sound : Sound s) : Sound (s.evict r) :=
  have listed := evict_listed sound.marked sound.exact
  ⟨sound.proper.evict (.inl rfl), listed.1, listed.2⟩

theorem Sound.setDecodedSize (sound : Sound s) {size : BitVec 32} : Sound (s.setDecodedSize r size) := by
  have proper : Proper none (s.setDecodedSize r size) := sound.proper.congr Alike.refl.setDecodedSize
  let resized := (s.removeFromLRUList r).modify r fun resource => { resource with decodedSize := size }
  unfold Cache.setDecodedSize at proper ⊢
  dsimp only at proper ⊢
  split_ifs at proper ⊢ with equal inside
  · exact sound
  · have removed : Marked (s.removeFromLRUList r) := sound.marked
    have sized : Marked resized := removed.modify fun _ => by rfl
    have filed : Marked (resized.insertInLRUList r) := sized
    refine sound.step (r := r) proper filed.move (fun a different => ?_) ?_
    · exact congrArg _ ((move_other _ different).trans (Function.update_of_ne different ..))
    · have before := sound.exact r
      have now : (resized.insertInLRUList r).resources r = { s.resources r with decodedSize := size } :=
        Function.update_self ..
      show ((moveInLiveDecodedResourcesList _ r).resources r).inLiveDecodedResourcesList = true ↔
        ((moveInLiveDecodedResourcesList _ r).resources r).liveDecoded
      rw [move_self, now]
      unfold CachedResource.liveDecoded CachedResource.hasClients at before ⊢
      dsimp only
      rw [Bool.and_eq_true, Bool.or_eq_true, decide_eq_true_eq, before]
      tauto
  · refine sound.step (r := r) proper (sound.marked.modify fun _ => by rfl) (fun a different => ?_) ?_
    · rw [modify_of_ne different]
    · rw [Bool.not_eq_true] at inside
      rw [modify_self]
      exact iff_of_false (by rw [sound.inside inside]; decide) (not_liveDecoded inside)

theorem Sound.setEncodedSize (sound : Sound s) {size : BitVec 32} : Sound (s.setEncodedSize r size) := by
  have alike : Alike s (s.setEncodedSize r size) := Alike.refl.setEncodedSize
  refine sound.neutral alike ?_
  have sized (s : Cache Url) : Same s (s.modify r fun resource => { resource with encodedSize := size }) :=
    Same.modify fun _ => by rfl
  unfold Cache.setEncodedSize
  dsimp only
  split_ifs
  · exact Same.refl
  · exact ⟨(sized (s.removeFromLRUList r)).view, rfl⟩
  · exact sized s

omit [DecidableEq Url] in
theorem same_resourceAccessed : Same s (s.resourceAccessed r) := by
  have counted : Same (s.removeFromLRUList r) ((s.removeFromLRUList r).modify r fun resource =>
      { resource with accessCount := resource.accessCount + 1 }) := Same.modify fun _ => by rfl
  exact ⟨counted.view, rfl⟩

theorem Sound.resourceAccessed (sound : Sound s) : Sound (s.resourceAccessed r) :=
  sound.neutral Alike.refl.resourceAccessed same_resourceAccessed

omit [DecidableEq Url] in
theorem load_eq (load : Load) : ∃ change, (∀ s : Cache Url, s.load r load = s.modify r change) ∧
    (∀ resource, (change resource).key = resource.key) ∧
    ∀ resource, (change resource).view = resource.view := by
  cases load with
  | started =>
    exact ⟨fun resource => { resource with request := true, loading := true }, fun _ => rfl, fun _ => rfl,
      fun _ => rfl⟩
  | failed =>
    exact ⟨fun resource => { resource with errorOccurred := true, loading := true }, fun _ => rfl,
      fun _ => rfl, fun _ => rfl⟩
  | skipped =>
    exact ⟨fun resource => { resource with loading := false }, fun _ => rfl, fun _ => rfl, fun _ => rfl⟩

theorem Sound.load (sound : Sound s) (load : Load) : Sound (s.load r load) := by
  obtain ⟨change, same, key, view⟩ := @load_eq Url r load
  rw [same]
  exact sound.modify key view

omit [DecidableEq Url] in
theorem create_self (type : CachedResourceType) (url : Url) :
    (s.create type url).resources s.created = { url := url, type := type } := Function.update_self ..

omit [DecidableEq Url] in
theorem create_other (type : CachedResourceType) (url : Url) {a : Nat} (different : a ≠ s.created) :
    (s.create type url).resources a = s.resources a := Function.update_of_ne different ..

theorem Sound.create (sound : Sound s) (type : CachedResourceType) (url : Url) : Sound (s.create type url) := by
  have off := sound.inside (sound.proper.fresh s.created le_rfl).1
  refine sound.step (r := s.created) (sound.proper.create type url) (sound.marked.congr rfl fun a => ?_)
    (fun a different => by rw [create_other type url different]) ?_
  · by_cases here : a = s.created
    · rw [here, create_self, off]
    · rw [create_other type url here]
  · rw [create_self]
    exact iff_of_false Bool.false_ne_true (not_liveDecoded rfl)

/-- A resource that comes into the cache is put on the list by the caller when it belongs there. -/
theorem Sound.enter {change : CachedResource Url → CachedResource Url} (sound : Sound s)
    (within : r < s.created) (key : ∀ resource, (change resource).key =
      ({ resource with inCache := true } : CachedResource Url).key)
    (unwanted : ∀ n, (s.resources n).validating = true → (s.resources n).resourceToRevalidate ≠ some r)
    (dead : ¬(change (s.resources r)).liveDecoded)
    (marks : ∀ resource, (change resource).inLiveDecodedResourcesList = resource.inLiveDecodedResourcesList)
    (out : (s.resources r).inCache = false) : Sound (s.modify r change) := by
  refine sound.step (r := r) (sound.proper.enter within key unwanted) (sound.marked.modify marks)
    (fun a different => by rw [modify_of_ne different]) ?_
  rw [modify_self, marks, sound.inside out]
  exact iff_of_false Bool.false_ne_true dead

theorem Sound.setEntry (sound : Sound s) (inside : (s.resources r).inCache = true) {url : Url}
    (named : (s.resources r).url = url) : Sound (s.setEntry url r) := by
  subst named
  exact sound.same (sound.proper.setEntry inside) ⟨fun _ => rfl, rfl⟩

/-- Nobody waits for a resource that is new. -/
theorem Proper.unwanted (proper : Proper none s) (type : CachedResourceType) (url : Url) (n : Nat) :
    ((s.create type url).resources n).resourceToRevalidate ≠ some s.created := by
  intro found
  by_cases here : n = s.created
  · rw [here, create_self] at found
    cases found
  · rw [create_other type url here] at found
    exact absurd (proper.known n _ found).1 (Nat.lt_irrefl _)

theorem Sound.requestNew (sound : Sound s) (type : CachedResourceType) (url : Url) (load : Load) :
    Sound (s.requestNew type url load) := by
  have born := sound.create type url
  have self := s.create_self type url
  obtain ⟨change, same, key, view⟩ := @load_eq Url s.created load
  unfold Cache.requestNew
  dsimp only
  rw [same]
  have at_key := key { url := url, type := type, inCache := true }
  have at_view := view { url := url, type := type, inCache := true }
  simp only [CachedResource.key, CachedResource.view, Prod.mk.injEq] at at_key at_view
  split
  · refine born.neutral ⟨rfl, rfl, fun a => ?_⟩ ⟨fun a => ?_, rfl⟩ <;> by_cases here : a = s.created
    · rw [here, modify_self, modify_self, modify_self, self]
      simp only [CachedResource.key, at_key]
    · rw [modify_of_ne here, modify_of_ne here, modify_of_ne here]
    · rw [here, modify_self, modify_self, modify_self, self]
      simp only [CachedResource.view, at_view]
    · rw [modify_of_ne here, modify_of_ne here, modify_of_ne here]
  · have inside : Sound ((s.create type url).modify s.created fun resource =>
        { resource with inCache := true }) := by
      refine born.enter (Nat.lt_succ_self _) (fun _ => by rfl) (fun n _ => sound.proper.unwanted type url n) ?_
        (fun _ => by rfl) (by rw [self])
      rw [self]
      rintro ⟨-, none, -⟩
      cases none
    have loaded := inside.modify (r := s.created) key view
    refine (loaded.setEntry ?_ ?_).resourceAccessed
    · rw [modify_self, modify_self, self]
      exact at_key.2.1
    · rw [modify_self, modify_self, self]
      exact at_key.1

theorem Sound.requestNewOrFail (sound : Sound s) (type : CachedResourceType) (url : Url) (load : Load) :
    Sound (s.requestNewOrFail type url load) := by
  unfold Cache.requestNewOrFail
  dsimp only
  split
  · exact (sound.requestNew type url load).delete
  · exact sound.requestNew type url load

theorem Sound.resourceForURL (sound : Sound s) (url : Url) (purged : Bool) :
    Sound (s.resourceForURL url purged).1 := by
  unfold Cache.resourceForURL
  split
  · split
    · exact sound.evict
    · exact sound
  · exact sound

theorem Sound.requestResource (sound : Sound s) (type : CachedResourceType) (url : Url)
    (isPreload purged refused : Bool) (load : Load) :
    Sound (s.requestResource type url isPreload purged refused load) := by
  have looked := sound.resourceForURL url purged
  unfold Cache.requestResource
  dsimp only
  split
  · split_ifs
    · exact looked
    · exact looked
    · exact looked.evict.requestNewOrFail type url load
    · exact looked
    · exact looked.resourceAccessed
  · split_ifs
    · exact looked
    · exact looked.requestNewOrFail type url load

theorem Sound.requestUserCSSStyleSheet (sound : Sound s) (url : Url) (purged : Bool) (load : Load) :
    Sound (s.requestUserCSSStyleSheet url purged load) := by
  have looked := sound.resourceForURL url purged
  unfold Cache.requestUserCSSStyleSheet
  dsimp only
  split
  · split_ifs
    · exact looked
    · exact looked
    · exact looked.resourceAccessed
  · exact looked.requestNew .cssStyleSheet url load

/-- A resource that is evicted stays as it is but for its place in the cache and on the list. -/
theorem evict_keeps {β : Type} (field : CachedResource Url → β)
    (same : ∀ resource inCache on deleted, field { resource with
      inCache := inCache, inLiveDecodedResourcesList := on, deleted := deleted } = field resource) (a : Nat) :
    field ((s.evict r).resources a) = field (s.resources a) := by
  have left : field ((if (s.resources r).inCache then s.leave r else s).resources a) =
      field (s.resources a) := by
    split
    · by_cases here : a = r
      · rw [here, leave_self]
        exact same (s.resources r) false false (s.resources r).deleted
      · rw [leave_other here]
    · rfl
  unfold Cache.evict
  dsimp only
  generalize (if (s.resources r).inCache then s.leave r else s) = rest at left ⊢
  split
  · exact (modify_keeps field (fun resource => same resource _ _ true) a).trans left
  · exact left

theorem evict_other {a : Nat} (different : a ≠ r) : (s.evict r).resources a = s.resources a := by
  unfold Cache.evict Cache.delete
  dsimp only
  split_ifs
  · rw [modify_of_ne different, leave_other different]
  · rw [leave_other different]
  · rw [modify_of_ne different]
  · rfl

theorem evict_created : (s.evict r).created = s.created := by
  unfold Cache.evict
  dsimp only
  split_ifs <;> rfl

section
variable (sound : Sound s) (type : CachedResourceType) (url : Url) (inside : (s.resources r).inCache = true)
include sound inside

theorem Sound.older : r < s.created := by
  by_contra beyond
  have out := (sound.proper.fresh r (Nat.not_lt.mp beyond)).1
  rw [inside] at out
  cases out

/-- The resources when a new one waits for what the old one turns out to be. -/
theorem Sound.awaiting_self : ((s.create type url).setResourceToRevalidate s.created r).resources s.created =
    { url := url, type := type, resourceToRevalidate := some r, validating := true } := by
  have older := sound.older inside
  unfold setResourceToRevalidate
  rw [modify_self, modify_of_ne (by omega), create_self]

theorem Sound.awaiting_key (a : Nat) :
    (((s.create type url).setResourceToRevalidate s.created r).resources a).key =
      if a = s.created then (url, false, true, some r) else (s.resources a).key := by
  by_cases here : a = s.created
  · rw [if_pos here, here, sound.awaiting_self type url inside]
    rfl
  · rw [if_neg here]
    unfold setResourceToRevalidate
    rw [modify_of_ne here, ← create_other type url here]
    exact modify_keeps CachedResource.key (fun _ => by rfl) a

theorem Sound.awaiting : Proper (some r) ((s.create type url).setResourceToRevalidate s.created r) := by
  have self := sound.awaiting_self type url inside
  have older := sound.older inside
  have others (a : Nat) (different : a ≠ s.created) :=
    (sound.awaiting_key type url inside a).trans (if_neg different)
  have inCache (a : Nat) (different : a ≠ s.created) := congrArg (·.2.1) (others a different)
  have validating (a : Nat) (different : a ≠ s.created) := congrArg (·.2.2.1) (others a different)
  have target (a : Nat) (different : a ≠ s.created) := congrArg (·.2.2.2) (others a different)
  dsimp only [CachedResource.key] at inCache validating target
  have taken (m : Nat) (on : (s.resources m).validating = true) :
      (s.resources m).resourceToRevalidate ≠ some r := by
    intro found
    obtain ⟨a, found', out | leaving⟩ := sound.proper.outside m on
    · cases found.symm.trans found'
      rw [inside] at out
      cases out
    · cases leaving
  refine ⟨fun named a found => ?_, fun a beyond => ?_, fun m a found => ?_, fun m on => ?_,
    fun m k a on_m on_k found_m found_k => ?_⟩
  · obtain ⟨inside_a, equal⟩ := sound.proper.entries named a found
    have different : a ≠ s.created := by
      have below := sound.older inside_a
      omega
    rw [inCache a different]
    exact ⟨inside_a, (congrArg (·.1) (others a different)).trans equal⟩
  · have different : a ≠ s.created := by
      have beyond : s.created + 1 ≤ a := beyond
      omega
    rw [inCache a different, validating a different]
    exact sound.proper.fresh a (Nat.le_of_succ_le beyond)
  · show a < s.created + 1 ∧ a ≠ m
    by_cases here : m = s.created
    · rw [here, self] at found
      cases found
      omega
    · rw [target m here] at found
      have known := sound.proper.known m a found
      omega
  · by_cases here : m = s.created
    · exact ⟨r, by rw [here, self], .inr rfl⟩
    · rw [validating m here] at on
      obtain ⟨a, found, out | leaving⟩ := sound.proper.outside m on
      · have known := sound.proper.known m a found
        exact ⟨a, (target m here).trans found, .inl ((inCache a (by omega)).trans out)⟩
      · cases leaving
  · by_cases here : m = s.created
    · by_cases here' : k = s.created
      · rw [here, here']
      · rw [here, self] at found_m
        cases found_m
        rw [validating k here'] at on_k
        rw [target k here'] at found_k
        exact absurd found_k (taken k on_k)
    · rw [validating m here] at on_m
      rw [target m here] at found_m
      by_cases here' : k = s.created
      · rw [here', self] at found_k
        cases found_k
        exact absurd found_m (taken m on_m)
      · rw [validating k here'] at on_k
        rw [target k here'] at found_k
        exact sound.proper.unique m k a on_m on_k found_m found_k

theorem Sound.await : Sound (((s.create type url).setResourceToRevalidate s.created r).evict r) := by
  have born := sound.create type url
  have same : Same (s.create type url) ((s.create type url).setResourceToRevalidate s.created r) :=
    (Same.modify fun _ => by rfl).trans (Same.modify fun _ => by rfl)
  have marked := born.marked.congr same.list fun a => view_marked (same.view a)
  have listed := evict_listed (r := r) marked fun a => by
    rw [view_marked (same.view a), view_liveDecoded (same.view a)]
    exact born.exact a
  exact ⟨(sound.awaiting type url inside).evict (.inr rfl), listed.1, listed.2⟩

end

theorem Sound.revalidateResource (sound : Sound s) {url : Url} (found : s.get url = some r) (load : Load) :
    Sound (s.revalidateResource r load) := by
  have inside := (sound.proper.entries url r found).1
  have older := sound.older inside
  unfold Cache.revalidateResource
  dsimp only
  split_ifs
  · exact sound
  · have left := sound.await (s.resources r).type (s.resources r).url inside
    have self := sound.awaiting_self (s.resources r).type (s.resources r).url inside
    have key := sound.awaiting_key (s.resources r).type (s.resources r).url inside
    have created : s.created < ((s.create (s.resources r).type (s.resources r).url).setResourceToRevalidate
        s.created r).created := Nat.lt_succ_self _
    generalize ((s.create (s.resources r).type (s.resources r).url).setResourceToRevalidate s.created r) = t
      at left self key created ⊢
    rw [← evict_other (r := r) (by omega)] at self
    have entered : Sound ((t.evict r).modify s.created fun resource => { resource with inCache := true }) := by
      refine left.enter (by rwa [evict_created]) (fun _ => by rfl) (fun m _ found => ?_) ?_
        (fun _ => by rfl) (by rw [self])
      · rw [evict_keeps (·.resourceToRevalidate) fun _ _ _ _ => rfl] at found
        have at_key := congrArg (·.2.2.2) (key m)
        dsimp only [CachedResource.key] at at_key
        rw [found] at at_key
        split_ifs at at_key with here
        · have equal := Option.some.inj at_key
          omega
        · have known := sound.proper.known m _ at_key.symm
          omega
      · rw [self]
        rintro ⟨-, none, -⟩
        cases none
    have stored := entered.setEntry (r := s.created) (by rw [modify_self])
      (show _ = (s.resources r).url by rw [modify_self, self])
    exact stored.resourceAccessed.load load
  · exact sound.evict

theorem Sound.destroyDecodedData (sound : Sound s) (kept : BitVec 32) : Sound (s.destroyDecodedData r kept) :=
  sound.setDecodedSize

theorem Sound.forget (sound : Sound s) : Sound (s.modify r fun resource =>
    { resource with handlesToRevalidate := 0, resourceToRevalidate := none, validating := false }) := by
  refine sound.same (sound.proper.modify (fun _ => rfl) rfl ?_ ?_) (Same.modify fun _ => rfl)
  · rintro ⟨⟩
  · rintro _ ⟨⟩

theorem Sound.clearResourceToRevalidate (sound : Sound s) : Sound (s.clearResourceToRevalidate r) := by
  have freed (a : Nat) : Sound (s.modify a fun resource => { resource with proxyResource := none }) :=
    sound.modify (fun _ => rfl) fun _ => rfl
  unfold Cache.clearResourceToRevalidate
  dsimp only
  apply Sound.deleteIfPossible
  apply Sound.forget
  split
  · split
    · exact (freed _).deleteIfPossible
    · exact sound
  · exact sound

theorem Sound.unregisterHandle (sound : Sound s) : Sound (s.unregisterHandle r) := by
  have handled : Sound (s.modify r fun resource =>
      { resource with
        handleCount := resource.handleCount - 1
        handlesToRevalidate :=
          if resource.isCacheValidator then resource.handlesToRevalidate - 1
          else resource.handlesToRevalidate }) := sound.modify (fun _ => rfl) fun _ => rfl
  unfold Cache.unregisterHandle
  dsimp only
  split
  · exact handled.deleteIfPossible
  · exact handled

theorem Sound.didAccessDecodedData (sound : Sound s) : Sound (s.didAccessDecodedData r).1 := by
  unfold Cache.didAccessDecodedData
  dsimp only
  split_ifs with inside on
  · have off : ((s.removeFromLiveDecodedResourcesList r).resources r).inLiveDecodedResourcesList = false := by
      rw [remove_self]
    refine sound.step (r := r) (sound.proper.congr
      Alike.refl.removeFromLiveDecodedResourcesList.insertInLiveDecodedResourcesList)
      (sound.marked.remove.insert off) (fun a different => ?_) ?_
    · rw [insert_other _ different, remove_other _ different]
    · rw [insert_self, remove_self]
      exact iff_of_true rfl ((sound.exact r).mp on)
  · exact sound
  · exact sound

theorem Sound.removeClient (sound : Sound s) (client : Nat) : Sound (s.removeClient r client).1 := by
  have changed : Marked (s.modify r fun resource =>
      { resource with clients := resource.clients.erase client }) := sound.marked.modify fun _ => by rfl
  have proper : Proper none (s.modify r fun resource =>
      { resource with clients := resource.clients.erase client }) :=
    sound.proper.congr (Alike.refl.modify fun _ => by rfl)
  have others (a : Nat) (different : a ≠ r) : ((s.modify r fun resource =>
      { resource with clients := resource.clients.erase client }).resources a).view = (s.resources a).view := by
    rw [modify_of_ne different]
  have before := sound.exact r
  unfold Cache.removeClient
  dsimp only
  split_ifs with gone last
  · refine Sound.delete (sound.step (r := r) proper changed others ?_)
    rw [modify_self] at gone ⊢
    have out := (Bool.not_eq_true _).mp gone.2
    exact iff_of_false (by rw [sound.inside out]; decide) (not_liveDecoded out)
  · have shrunk : Marked ((s.modify r fun resource =>
        { resource with clients := resource.clients.erase client }).removeFromLiveResourcesSize r) := changed
    refine sound.step (r := r) (proper.congr (Alike.removeFromLiveDecodedResourcesList
      ⟨rfl, rfl, fun _ => rfl⟩)) shrunk.remove (fun a different => ?_) ?_
    · rw [remove_other _ different]
      exact others a different
    · rw [remove_self]
      exact iff_of_false Bool.false_ne_true fun live => last.1 live.2.1
  · refine sound.step (r := r) proper changed others ?_
    rw [modify_self] at last ⊢
    refine before.trans ⟨fun live => ⟨live.1, ?_, live.2.2⟩, fun live => ⟨live.1, ?_, live.2.2⟩⟩
    · by_contra none
      exact last ⟨none, live.1⟩
    · have some_client := live.2.1
      unfold CachedResource.hasClients at some_client ⊢
      rw [Bool.not_eq_true', List.isEmpty_eq_false_iff] at some_client ⊢
      rintro none
      rw [none] at some_client
      exact some_client rfl

omit [DecidableEq Url] in
theorem addClientToSet_self (client : Nat) : (s.addClientToSet r client).resources r =
    { s.resources r with clients := client :: (s.resources r).clients } := by
  unfold addClientToSet
  dsimp only
  rw [modify_self]
  split_ifs <;> rfl

omit [DecidableEq Url] in
theorem addClientToSet_other (client : Nat) {a : Nat} (different : a ≠ r) :
    (s.addClientToSet r client).resources a = s.resources a := by
  unfold addClientToSet
  dsimp only
  rw [modify_of_ne different]
  split_ifs <;> rfl

omit [DecidableEq Url] in
theorem Marked.addClientToSet (marked : Marked s) (client : Nat) : Marked (s.addClientToSet r client) := by
  unfold Cache.addClientToSet
  dsimp only
  split_ifs
  · have added : Marked (s.addToLiveResourcesSize r) := marked
    exact added.modify fun _ => by rfl
  · exact marked.modify fun _ => by rfl

theorem Sound.addClientToSet (sound : Sound s) {client : Nat} (quiet : ¬(s.resources r).deadDecoded) :
    Sound (s.addClientToSet r client) := by
  refine sound.step (r := r) (sound.proper.congr Alike.refl.addClientToSet) (sound.marked.addClientToSet client)
    (fun a different => by rw [addClientToSet_other client different]) ?_
  rw [addClientToSet_self]
  refine (sound.exact r).trans
    ⟨fun live => ⟨live.1, rfl, live.2.2⟩, fun live => ⟨live.1, ?_, live.2.2⟩⟩
  by_contra none
  exact quiet ⟨live.1, (Bool.not_eq_true _).mp none, live.2.2⟩

omit [DecidableEq Url] in
/-- What was left out of the list stays out when further clients come. -/
theorem not_exact_foldl (clients : List Nat) (off : (s.resources r).inLiveDecodedResourcesList = false)
    (live : (s.resources r).liveDecoded) :
    ¬Exact (clients.foldl (fun s client => s.addClientToSet r client) s) := by
  induction clients generalizing s with
  | nil =>
    intro exact
    have on := off.symm.trans ((exact r).mpr live)
    cases on
  | cons client clients ih =>
    refine ih ?_ ?_
    · rw [addClientToSet_self]
      exact off
    · rw [addClientToSet_self]
      exact ⟨live.1, rfl, live.2.2⟩

omit [DecidableEq Url] in
theorem Marked.foldl (marked : Marked s) (clients : List Nat) :
    Marked (clients.foldl (fun s client => s.addClientToSet r client) s) := by
  induction clients generalizing s with
  | nil => exact marked
  | cons client clients ih => exact ih (marked.addClientToSet client)

/-- Clients come to a resource, one after the other. -/
theorem Sound.foldl (sound : Sound s) (clients : List Nat)
    (quiet : clients ≠ [] → ¬(s.resources r).deadDecoded) :
    Sound (clients.foldl (fun s client => s.addClientToSet r client) s) := by
  induction clients generalizing s with
  | nil => exact sound
  | cons client clients ih =>
    refine ih (sound.addClientToSet (quiet (List.cons_ne_nil _ _))) fun _ => ?_
    rw [addClientToSet_self]
    rintro ⟨-, none, -⟩
    cases none

theorem Sound.foldl_exact (sound : Sound s) {clients : List Nat}
    (exact : Exact (clients.foldl (fun s client => s.addClientToSet r client) s))
    (some_client : clients ≠ []) : ¬(s.resources r).deadDecoded := by
  rintro ⟨inside, none, decoded⟩
  obtain ⟨client, clients, rfl⟩ := List.exists_cons_of_ne_nil some_client
  refine not_exact_foldl clients ?_ ?_ exact
  · rw [addClientToSet_self, Bool.eq_false_iff]
    intro on
    have some_client := ((sound.exact r).mp on).2.1
    rw [none] at some_client
    cases some_client
  · rw [addClientToSet_self]
    exact ⟨inside, rfl, decoded⟩

/-- A resource that comes back is filed before it takes its place on the list. -/
abbrev filed (s : Cache Url) (r : Nat) (response : Response) : Cache Url :=
  ((s.setEntry (s.resources r).url r).modify r fun resource =>
    { resource with inCache := true, response := response }).insertInLRUList r

theorem filed_self (response : Response) : (s.filed r response).resources r =
    { s.resources r with inCache := true, response := response } := Function.update_self ..

theorem comeBack_self (response : Response) : (s.comeBack r response).resources r =
    { s.resources r with
      inCache := true
      response := response
      inLiveDecodedResourcesList :=
        if (s.resources r).decodedSize ≠ 0 ∧ (s.resources r).hasClients then true
        else (s.resources r).inLiveDecodedResourcesList } := by
  unfold comeBack
  dsimp only [adjustSize]
  rw [filed_self]
  unfold CachedResource.hasClients
  dsimp only
  split_ifs
  · rw [insert_self, filed_self]
  · exact filed_self response

theorem comeBack_other (response : Response) {a : Nat} (different : a ≠ r) :
    (s.comeBack r response).resources a = s.resources a := by
  have now : (s.filed r response).resources a = s.resources a := Function.update_of_ne different ..
  unfold comeBack
  dsimp only [adjustSize]
  split_ifs
  · rw [insert_other _ different, now]
  · exact now

/-- A resource that was valid comes back and takes its place on the list. -/
theorem Sound.comeBack (sound : Sound s) (response : Response) (within : r < s.created)
    (unwanted : ∀ n, (s.resources n).validating = true → (s.resources n).resourceToRevalidate ≠ some r)
    (out : (s.resources r).inCache = false) : Sound (s.comeBack r response) := by
  have off := sound.inside out
  have entered : Proper none (s.modify r fun resource =>
      { resource with inCache := true, response := response }) :=
    sound.proper.enter within (fun _ => by rfl) unwanted
  have stored : Proper none ((s.modify r fun resource =>
      { resource with inCache := true, response := response }).setEntry (s.resources r).url r) := by
    have named := entered.setEntry (r := r) (by rw [modify_self])
    rwa [modify_self] at named
  have changed : Marked (s.modify r fun resource => { resource with inCache := true, response := response }) :=
    sound.marked.modify fun _ => by rfl
  have filed : Marked (s.filed r response) := changed
  refine sound.step (r := r) (stored.congr ?_) ?_
    (fun a different => by rw [comeBack_other response different]) ?_
  · unfold Cache.comeBack
    dsimp only
    split_ifs
    · exact Alike.refl.insertInLRUList.insertInLiveDecodedResourcesList.adjustSize
    · exact Alike.refl.insertInLRUList.adjustSize
  · unfold Cache.comeBack
    dsimp only
    split_ifs
    · exact filed.insert (by rw [filed_self, off])
    · exact filed
  · rw [comeBack_self, off]
    unfold CachedResource.liveDecoded CachedResource.hasClients
    simp only [Bool.if_false_right, decide_eq_true_eq, true_and, Bool.and_true]
    exact and_comm

theorem evict_out : ((s.evict r).resources r).inCache = false := by
  have out : ((if (s.resources r).inCache then s.leave r else s).resources r).inCache = false := by
    split_ifs with inside
    · rw [leave_self]
    · exact (Bool.not_eq_true _).mp inside
  unfold Cache.evict
  dsimp only
  generalize (if (s.resources r).inCache then s.leave r else s) = rest at out ⊢
  split_ifs
  · exact (modify_keeps (·.inCache) (fun _ => by rfl) r).trans out
  · exact out

/-- The clients of a resource outside of the cache may be taken from it. -/
theorem Sound.clearClients (sound : Sound s) (handles : Nat) (out : (s.resources r).inCache = false) :
    Sound (s.modify r fun resource =>
      { resource with
        handleCount := resource.handleCount - handles
        handlesToRevalidate := 0
        clients := [] }) := by
  refine sound.step (r := r) (sound.proper.congr (Alike.refl.modify fun _ => by rfl))
    (sound.marked.modify fun _ => by rfl) (fun a different => by rw [modify_of_ne different]) ?_
  rw [modify_self]
  exact iff_of_false (by rw [sound.inside out]; decide) (not_liveDecoded out)

/-- When a resource was valid, it is back in the cache before the clients of the other one come to it. -/
theorem Sound.revalidated (sound : Sound s) {n : Nat} (response : Response)
    (validating : (s.resources n).validating = true)
    (waits : (s.resources n).resourceToRevalidate = some r) :
    ∃ s', Sound s' ∧ s.revalidationSucceeded n r response =
        (s.resources n).clients.foldl (fun s client => s.addClientToSet r client) s' ∧
      ((s'.resources r).deadDecoded ↔
        (s.resources r).hasClients = false ∧ (s.resources r).decodedSize ≠ 0) := by
  obtain ⟨within, different⟩ := sound.proper.known n r waits
  have out : (s.resources r).inCache = false := by
    obtain ⟨a, found, out | leaving⟩ := sound.proper.outside n validating
    · cases waits.symm.trans found
      exact out
    · cases leaving
  have idle : Sound (s.modify n fun resource => { resource with validating := false }) := by
    refine sound.same (sound.proper.modify (fun _ => rfl) rfl ?_ fun _ found => found)
      (Same.modify fun _ => rfl)
    rintro ⟨⟩
  have single (m : Nat) (on : ((s.modify n fun resource =>
      { resource with validating := false }).resources m).validating = true) :
      ((s.modify n fun resource => { resource with validating := false }).resources
        m).resourceToRevalidate ≠ some r := by
    by_cases here : m = n
    · rw [here, modify_self] at on
      cases on
    · rw [modify_of_ne here] at on ⊢
      exact fun found => here (sound.proper.unique m n r on validating found waits)
  have self : (s.modify n fun resource => { resource with validating := false }).resources r = s.resources r :=
    modify_of_ne different
  have clients : ((s.modify n fun resource => { resource with validating := false }).resources n).clients =
      (s.resources n).clients := by rw [modify_self]
  have created : (s.modify n fun resource => { resource with validating := false }).created = s.created := rfl
  unfold Cache.revalidationSucceeded Cache.switchClientsToRevalidatedResource
  dsimp only
  generalize (s.modify n fun resource => { resource with validating := false }) = t
    at idle single self clients created ⊢
  have evicted : Sound (t.evict n) := idle.evict
  rw [← evict_other different] at self
  rw [← evict_keeps (r := n) (·.clients) fun _ _ _ _ => rfl] at clients
  have back : Sound ((t.evict n).comeBack r response) := by
    refine evicted.comeBack response (by rwa [evict_created, created]) (fun m on => ?_) (by rw [self, out])
    rw [evict_keeps (·.validating) fun _ _ _ _ => rfl] at on
    rw [evict_keeps (·.resourceToRevalidate) fun _ _ _ _ => rfl]
    exact single m on
  have outside : (((t.evict n).comeBack r response).resources n).inCache = false := by
    rw [comeBack_other response different.symm, evict_out]
  rw [← comeBack_other (r := r) response different.symm] at clients
  have there := comeBack_self (s := t.evict n) (r := r) response
  rw [self] at there
  generalize (t.evict n).comeBack r response = u at back outside clients there ⊢
  have handled : Sound (u.modify r fun resource =>
      { resource with handleCount := resource.handleCount + (u.resources n).handlesToRevalidate }) :=
    back.modify (fun _ => rfl) fun _ => rfl
  rw [clients]
  refine ⟨_, handled.clearClients _ ?_, rfl, ?_⟩
  · rw [modify_of_ne different.symm, outside]
  · rw [modify_of_ne different, modify_self, there]
    exact ⟨fun dead => dead.2, fun dead => ⟨rfl, dead⟩⟩

theorem Sound.clientsRemoved (sound : Sound s) : Sound (s.clientsRemoved r).1 := by
  unfold Cache.clientsRemoved
  split
  · exact sound.evict
  · exact sound

theorem Sound.letGo (sound : Sound s) {client : Nat} {next : Cache Url × List Item}
    (gone : s.letGo r client = some next) : Sound next.1 := by
  unfold Cache.letGo at gone
  split at gone
  · cases gone
    exact sound.removeClient client
  · cases gone

theorem Sound.fields (sound : Sound s) (resources : s'.resources = s.resources)
    (created : s'.created = s.created) (entries : s'.entries = s.entries)
    (list : s'.liveDecodedResources = s.liveDecodedResources) : Sound s' :=
  sound.neutral ⟨created, entries, fun r => by rw [resources]⟩ ⟨fun r => by rw [resources], list⟩

theorem Sound.turn (sound : Sound s) {item : Item} {event : Event Url} {next : Cache Url × List Item}
    (turned : s.turn item event = some next) : Sound next.1 := by
  have dropped {r client : Nat} {items : List Item} (done : (s.letGo r client).map
      (fun next => (next.1, next.2 ++ items)) = some next) : Sound next.1 := by
    obtain ⟨gone, let_go, rfl⟩ := Option.map_eq_some_iff.mp done
    have left := sound.letGo let_go
    exact left
  unfold Cache.turn at turned
  split at turned
  · cases turned
    exact sound.clearResourceToRevalidate
  · cases turned
    exact (sound.destroyDecodedData _).clientsRemoved
  · obtain ⟨r, -, rfl⟩ := Option.map_eq_some_iff.mp turned
    exact sound.evict
  all_goals try exact dropped turned
  all_goals try dsimp only at turned
  all_goals repeat' split at turned
  -- the loops evict, destroy decoded data or change nothing but fields
  all_goals cases turned
  all_goals
    first
    | exact sound
    | exact sound.evict
    | exact sound.setDecodedSize
    | exact sound.fields rfl rfl rfl rfl
    | exact (sound.destroyDecodedData _).fields rfl rfl rfl rfl

/-- The condition under which a call leaves the list complete. -/
def KeepsComplete (s : Cache Url) : Event Url → Prop
  | .addClient r _ => ¬(s.resources r).deadDecoded
  | .revalidationSucceeded n _ => ∀ r, (s.resources n).resourceToRevalidate = some r →
      (s.resources n).clients ≠ [] →
        ¬((s.resources r).hasClients = false ∧ (s.resources r).decodedSize ≠ 0)
  | _ => True

theorem Sound.call_iff (sound : Sound s) {event : Event Url} {next : Cache Url × List Item}
    (called : s.call event = some next) :
    (s.KeepsComplete event → Sound next.1) ∧ (Complete next.1 → s.KeepsComplete event) := by
  have changed {r : Nat} {change : CachedResource Url → CachedResource Url}
      (key : ∀ resource, (change resource).key = resource.key)
      (view : ∀ resource, (change resource).view = resource.view)
      (done : s.change r change = some next) : Sound next.1 := by
    unfold Cache.change at done
    split at done
    · cases done
      exact sound.modify key view
    · cases done
  cases event with
  | addClient r client =>
    obtain ⟨-, done⟩ := Option.ite_none_right_eq_some.mp called
    cases done
    refine ⟨fun quiet => sound.addClientToSet quiet, fun complete => ?_⟩
    have exact : Exact ([client].foldl (fun s client => s.addClientToSet r client) s) :=
      (sound.marked.addClientToSet client).complete_iff.mp complete
    exact sound.foldl_exact exact (List.cons_ne_nil _ _)
  | revalidationSucceeded n response =>
    obtain ⟨validating, done⟩ := Option.ite_none_right_eq_some.mp called
    obtain ⟨r, waits, rfl⟩ := Option.map_eq_some_iff.mp done
    obtain ⟨s', sound', same, dead⟩ := sound.revalidated response validating waits
    constructor
    · intro keeps
      show Sound (s.revalidationSucceeded n r response)
      rw [same]
      exact sound'.foldl _ fun some_client => dead.not.mpr (keeps r waits some_client)
    · intro complete r' waits' some_client
      cases waits.symm.trans waits'
      change Complete (s.revalidationSucceeded n r response) at complete
      rw [same, (sound'.marked.foldl _).complete_iff] at complete
      exact dead.not.mp (sound'.foldl_exact complete some_client)
  | revalidateResource r load =>
    obtain ⟨found, done⟩ := Option.ite_none_right_eq_some.mp called
    cases done
    exact ⟨fun _ => sound.revalidateResource found load, fun _ => trivial⟩
  | removeClient r client => exact ⟨fun _ => sound.letGo called, fun _ => trivial⟩
  | requestResource type url isPreload purged refused load =>
    cases called
    exact ⟨fun _ => sound.requestResource type url isPreload purged refused load, fun _ => trivial⟩
  | requestUserCSSStyleSheet url purged load =>
    cases called
    exact ⟨fun _ => sound.requestUserCSSStyleSheet url purged load, fun _ => trivial⟩
  | setRequest r request =>
    obtain ⟨middle, done, rfl⟩ := Option.map_eq_some_iff.mp called
    have requested : Sound middle.1 := by
      obtain ⟨-, done⟩ := Option.ite_none_right_eq_some.mp done
      cases done
      have requested : Sound (s.modify r fun resource => { resource with request := request }) :=
        sound.modify (fun _ => rfl) fun _ => rfl
      exact requested
    exact ⟨fun _ => requested.deleteIfPossible, fun _ => trivial⟩
  | setResponse | setLoading | error | increasePreloadCount | decreasePreloadCount | registerHandle =>
    exact ⟨fun _ => changed (fun _ => by rfl) (fun _ => by rfl) called, fun _ => trivial⟩
  | revalidationFailed | setDecodedSize | setEncodedSize | didAccessDecodedData | unregisterHandle | remove =>
    obtain ⟨-, done⟩ := Option.ite_none_right_eq_some.mp called
    cases done
    refine ⟨fun _ => ?_, fun _ => trivial⟩
    first
    | exact sound.clearResourceToRevalidate
    | exact sound.setDecodedSize
    | exact sound.setEncodedSize
    | exact sound.didAccessDecodedData
    | exact sound.unregisterHandle
    | exact sound.evict
  | setCapacities | setDisabled | setPruneEnabled | prune =>
    cases called
    exact ⟨fun _ => sound.fields rfl rfl rfl rfl, fun _ => trivial⟩
  | entry | proceed => cases called

end

/-- The cache before anything was asked of it. -/
def empty (blank : Url) (capacity maxDeadCapacity overheadSize : BitVec 32)
    (targetPrune : BitVec 32 → BitVec 32) : Cache Url where
  resources _ := { url := blank }
  capacity := capacity
  maxDeadCapacity := maxDeadCapacity
  overheadSize := overheadSize
  targetPrune := targetPrune

section
variable [DecidableEq Url] {blank : Url} {capacity maxDeadCapacity overheadSize : BitVec 32}
  {targetPrune : BitVec 32 → BitVec 32}

theorem sound_empty : Sound (empty blank capacity maxDeadCapacity overheadSize targetPrune) where
  proper := by
    refine ⟨?_, fun _ _ => ⟨rfl, rfl⟩, ?_, ?_, ?_⟩
    · rintro _ _ ⟨⟩
    · rintro _ _ ⟨⟩
    · rintro _ ⟨⟩
    · rintro _ _ _ ⟨⟩
  marked := LinkedList.Holds.empty.congr fun _ => iff_of_false Bool.false_ne_true id
  exact _ := iff_of_false Bool.false_ne_true (not_liveDecoded rfl)

/-- When the event is a call that is let in, it keeps the list complete. -/
def Quiet (now : Agenda (Cache Url) Item) (event : Event Url) : Prop :=
  (∀ item ∈ now.items.head?, now.state.turn item event = none ∧ waits item = true) →
    (now.state.call event).isSome → now.state.KeepsComplete event

theorem Sound.step_iff {now : Agenda (Cache Url) Item} (sound : Sound now.state) (event : Event Url) :
    (Quiet now event → Sound (machine.step now event).state) ∧
      (Complete (machine.step now event).state → Quiet now event) := by
  have entered : ((now.state.call event).isSome → now.state.KeepsComplete event) →
      Sound (machine.enter now event).state := by
    intro keeps
    unfold Reentrant.enter
    split
    · rename_i called
      exact (sound.call_iff called).1 (keeps (Option.isSome_of_eq_some called))
    · exact sound
  have complete (ended : Complete (machine.enter now event).state) (some_call : (now.state.call event).isSome) :
      now.state.KeepsComplete event := by
    obtain ⟨next, called⟩ := Option.isSome_iff_exists.mp some_call
    refine (sound.call_iff called).2 ?_
    unfold Reentrant.enter at ended
    rw [show machine.call now.state event = some next from called] at ended
    exact ended
  obtain ⟨s, items⟩ := now
  unfold Reentrant.step Quiet
  cases items with
  | nil =>
    refine ⟨fun quiet => entered (quiet ?_), fun ended _ => complete ended⟩
    rintro _ ⟨⟩
  | cons item rest =>
    have step : machine.turn s item event = s.turn item event := rfl
    dsimp only
    rw [step]
    cases turned : s.turn item event with
    | some next =>
      refine ⟨fun _ => sound.turn turned, fun _ let_in => ?_⟩
      cases turned.symm.trans (let_in item rfl).1
    | none =>
      dsimp only
      split_ifs with waiting
      · refine ⟨fun quiet => entered (quiet ?_), fun ended _ => complete ended⟩
        rintro _ ⟨⟩
        exact ⟨turned, waiting⟩
      · exact ⟨fun _ => sound, fun _ let_in => absurd (let_in item rfl).2 waiting⟩

/-- In a run the list is complete after every event exactly when no client comes to a resource that is dead
while its decoded data is in the cache. -/
theorem complete_along_iff (events : List (Event Url)) :
    Along machine.step (fun now event => Complete (machine.step now event).state)
        ⟨empty blank capacity maxDeadCapacity overheadSize targetPrune, []⟩ events ↔
      Along machine.step Quiet ⟨empty blank capacity maxDeadCapacity overheadSize targetPrune, []⟩ events := by
  refine along_iff (fun now => Sound now.state) (fun now event sound _ => ?_)
    (fun now event sound _ complete => ?_) _ events sound_empty (along_of_forall (fun _ _ => trivial) _ events)
  · have kept := sound.step_iff event
    exact ⟨kept.2, fun quiet => (kept.1 quiet).marked.complete_iff.mpr (kept.1 quiet).exact⟩
  · have kept := sound.step_iff event
    exact kept.1 (kept.2 complete)

end

end Cache

end WkcBrowser.MemoryCache
