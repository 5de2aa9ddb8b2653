import WkcBrowser.Loader.Cache

/-! The entries of the memory cache. Whatever the map holds is in the cache, and a resource waits outside
while another one finds out whether it is still valid. -/

namespace WkcBrowser.MemoryCache

open Lib Requests

variable {Url : Type}

namespace CachedResource

/-- What entries and revalidations depend on. -/
def key (resource : CachedResource Url) : Url × Bool × Bool × Option Nat :=
  (resource.url, resource.inCache, resource.validating, resource.resourceToRevalidate)

end CachedResource

namespace Cache

/-- Two states with the same entries. -/
structure Alike (s s' : Cache Url) : Prop where
  created : s'.created = s.created
  entries : s'.entries = s.entries
  key : ∀ r, (s'.resources r).key = (s.resources r).key

variable {s s' s'' : Cache Url} {r n : Nat} {leaving : Option Nat}

theorem Alike.refl : Alike s s := ⟨rfl, rfl, fun _ => rfl⟩

@[simp] theorem modify_self {change : CachedResource Url → CachedResource Url} :
    (s.modify r change).resources r = change (s.resources r) := Function.update_self ..

theorem modify_of_ne {change : CachedResource Url → CachedResource Url} {a : Nat}
    (different : a ≠ r) : (s.modify r change).resources a = s.resources a :=
  Function.update_of_ne different ..

/-- What a change does not touch stays. -/
theorem modify_keeps {β : Type} (field : CachedResource Url → β)
    {change : CachedResource Url → CachedResource Url}
    (same : ∀ resource, field (change resource) = field resource) (a : Nat) :
    field ((s.modify r change).resources a) = field (s.resources a) := by
  by_cases equal : a = r
  · rw [equal, modify_self, same]
  · rw [modify_of_ne equal]

section
variable (alike : Alike s s')
include alike

theorem Alike.modify {change : CachedResource Url → CachedResource Url}
    (same : ∀ resource, (change resource).key = resource.key) : Alike s (s'.modify r change) := by
  refine ⟨alike.created, alike.entries, fun a => ?_⟩
  by_cases equal : a = r
  · rw [equal, modify_self, same]
    exact alike.key r
  · rw [modify_of_ne equal]
    exact alike.key a

theorem Alike.delete : Alike s (s'.delete r) := alike.modify fun _ => by rfl

theorem Alike.adjustSize {live : Bool} {delta : BitVec 32} : Alike s (s'.adjustSize live delta) :=
  ⟨alike.created, alike.entries, alike.key⟩

theorem Alike.removeFromLRUList : Alike s (s'.removeFromLRUList r) :=
  ⟨alike.created, alike.entries, alike.key⟩

theorem Alike.insertInLRUList : Alike s (s'.insertInLRUList r) :=
  ⟨alike.created, alike.entries, alike.key⟩

theorem Alike.removeFromLiveDecodedResourcesList :
    Alike s (s'.removeFromLiveDecodedResourcesList r) :=
  have flagged : Alike s (s'.modify r fun resource =>
      { resource with inLiveDecodedResourcesList := false }) := alike.modify fun _ => rfl
  ⟨flagged.created, flagged.entries, flagged.key⟩

theorem Alike.insertInLiveDecodedResourcesList :
    Alike s (s'.insertInLiveDecodedResourcesList r) :=
  have flagged : Alike s (s'.modify r fun resource =>
      { resource with inLiveDecodedResourcesList := true }) := alike.modify fun _ => rfl
  ⟨flagged.created, flagged.entries, flagged.key⟩

theorem Alike.resourceAccessed : Alike s (s'.resourceAccessed r) :=
  ((alike.removeFromLRUList.adjustSize).modify fun _ => by rfl).insertInLRUList

theorem Alike.moveInLiveDecodedResourcesList : Alike s (s'.moveInLiveDecodedResourcesList r) := by
  unfold Cache.moveInLiveDecodedResourcesList
  dsimp only
  split
  · exact alike.insertInLiveDecodedResourcesList
  · split
    · exact alike.removeFromLiveDecodedResourcesList
    · exact alike

theorem Alike.addClientToSet {client : Nat} : Alike s (s'.addClientToSet r client) := by
  unfold Cache.addClientToSet
  dsimp only
  split
  · have added : Alike s (s'.addToLiveResourcesSize r) := ⟨alike.created, alike.entries, alike.key⟩
    exact added.modify fun _ => by rfl
  · exact alike.modify fun _ => by rfl

theorem Alike.setDecodedSize {size : BitVec 32} : Alike s (s'.setDecodedSize r size) := by
  unfold Cache.setDecodedSize
  dsimp only
  split
  · exact alike
  · split
    · exact (alike.removeFromLRUList.modify fun _ => by rfl).insertInLRUList
        |>.moveInLiveDecodedResourcesList |>.adjustSize
    · exact alike.modify fun _ => by rfl

theorem Alike.setEncodedSize {size : BitVec 32} : Alike s (s'.setEncodedSize r size) := by
  unfold Cache.setEncodedSize
  dsimp only
  split
  · exact alike
  · split
    · exact (alike.removeFromLRUList.modify fun _ => by rfl).insertInLRUList.adjustSize
    · exact alike.modify fun _ => by rfl

end

section
variable [DecidableEq Url]

omit [DecidableEq Url] in
theorem lookup_filter [DecidableEq Url] (entries : List (Url × Nat)) (url other : Url) :
    (entries.filter (·.1 ≠ url)).lookup other =
      if other = url then none else entries.lookup other := by
  induction entries with
  | nil => simp
  | cons entry entries ih =>
    by_cases same : entry.1 = url
    · rw [List.filter_cons_of_neg (by simpa using same), ih, List.lookup_cons]
      split
      · rfl
      · rename_i different
        rw [show (other == entry.1) = false by simpa [same] using different]
    · rw [List.filter_cons_of_pos (by simpa using same), List.lookup_cons, ih, List.lookup_cons]
      cases found : other == entry.1 with
      | true =>
        rw [beq_iff_eq] at found
        exact (if_neg (found ▸ same)).symm
      | false => rfl

theorem get_removeEntry (url other : Url) :
    (s.removeEntry url).get other = if other = url then none else s.get other :=
  lookup_filter s.entries url other

theorem get_setEntry (url other : Url) :
    (s.setEntry url r).get other = if other = url then some r else s.get other := by
  unfold get setEntry
  rw [List.lookup_cons, lookup_filter]
  by_cases same : other = url
  · rw [same, beq_self_eq_true]
    exact (if_pos rfl).symm
  · rw [beq_false_of_ne same, if_neg same, if_neg same]

end

/-- What is to hold of the entries of a state, but for a resource that is about to leave. -/
structure Proper [DecidableEq Url] (leaving : Option Nat) (s : Cache Url) : Prop where
  entries : ∀ url r, s.get url = some r →
    (s.resources r).inCache = true ∧ (s.resources r).url = url
  fresh : ∀ r, s.created ≤ r →
    (s.resources r).inCache = false ∧ (s.resources r).validating = false
  known : ∀ n r, (s.resources n).resourceToRevalidate = some r → r < s.created ∧ r ≠ n
  outside : ∀ n, (s.resources n).validating = true → ∃ r,
    (s.resources n).resourceToRevalidate = some r ∧
      ((s.resources r).inCache = false ∨ leaving = some r)
  unique : ∀ n m r, (s.resources n).validating = true → (s.resources m).validating = true →
    (s.resources n).resourceToRevalidate = some r → (s.resources m).resourceToRevalidate = some r →
    n = m

section
variable [DecidableEq Url]

theorem Proper.congr (proper : Proper leaving s) (alike : Alike s s') : Proper leaving s' := by
  have inCache : ∀ r, (s'.resources r).inCache = (s.resources r).inCache :=
    fun r => congrArg (·.2.1) (alike.key r)
  have url : ∀ r, (s'.resources r).url = (s.resources r).url := fun r => congrArg (·.1) (alike.key r)
  have validating : ∀ r, (s'.resources r).validating = (s.resources r).validating :=
    fun r => congrArg (·.2.2.1) (alike.key r)
  have target : ∀ r,
      (s'.resources r).resourceToRevalidate = (s.resources r).resourceToRevalidate :=
    fun r => congrArg (·.2.2.2) (alike.key r)
  have get : ∀ url, s'.get url = s.get url := fun url => by rw [get, alike.entries, Cache.get]
  refine ⟨?_, ?_, ?_, ?_, ?_⟩
  · simpa only [get, inCache, url] using proper.entries
  · simpa only [alike.created, inCache, validating] using proper.fresh
  · simpa only [alike.created, target] using proper.known
  · simpa only [validating, target, inCache] using proper.outside
  · simpa only [validating, target] using proper.unique

/-- Of a resource that is not in the cache anything but what it has to say about others may change. -/
theorem Proper.modify {change : CachedResource Url → CachedResource Url}
    (proper : Proper leaving s)
    (url : ∀ resource, (change resource).url = resource.url)
    (inCache : (change (s.resources r)).inCache = (s.resources r).inCache)
    (validating : (change (s.resources r)).validating = true → (s.resources r).validating = true ∧
      (change (s.resources r)).resourceToRevalidate = (s.resources r).resourceToRevalidate)
    (target : ∀ a, (change (s.resources r)).resourceToRevalidate = some a →
      (s.resources r).resourceToRevalidate = some a) :
    Proper leaving (s.modify r change) := by
  have inside : ∀ a, ((s.modify r change).resources a).inCache = (s.resources a).inCache := by
    intro a
    by_cases same : a = r
    · rw [same, modify_self, inCache]
    · rw [modify_of_ne same]
  have names := modify_keeps (s := s) (r := r) (·.url) url
  have waits : ∀ a, ((s.modify r change).resources a).validating = true →
      (s.resources a).validating = true ∧
        ((s.modify r change).resources a).resourceToRevalidate =
          (s.resources a).resourceToRevalidate := by
    intro a
    by_cases same : a = r
    · rw [same, modify_self]
      exact validating
    · rw [modify_of_ne same]
      exact fun on => ⟨on, rfl⟩
  refine ⟨?_, fun a beyond => ?_, fun n a => ?_, fun n on => ?_, fun n m a on_n on_m => ?_⟩
  · simp only [inside, names]
    exact proper.entries
  · obtain ⟨out, off⟩ := proper.fresh a beyond
    rw [inside]
    refine ⟨out, Bool.eq_false_iff.mpr fun on => ?_⟩
    rw [(waits a on).1] at off
    cases off
  · by_cases same : n = r
    · rw [same, modify_self]
      exact fun found => proper.known r a (target a found)
    · rw [modify_of_ne same]
      exact proper.known n a
  · obtain ⟨on', same⟩ := waits n on
    rw [same]
    simp only [inside]
    exact proper.outside n on'
  · obtain ⟨on_n', same_n⟩ := waits n on_n
    obtain ⟨on_m', same_m⟩ := waits m on_m
    rw [same_n, same_m]
    exact proper.unique n m a on_n' on_m'

theorem leave_alike : Alike
    ((s.removeEntry (s.resources r).url).modify r fun resource => { resource with inCache := false })
    (s.leave r) :=
  (Alike.refl.removeFromLRUList).removeFromLiveDecodedResourcesList.adjustSize

/-- A resource that leaves the cache takes its entry along. -/
theorem Proper.leave (proper : Proper leaving s)
    (this : leaving = none ∨ leaving = some r) : Proper none (s.leave r) := by
  apply Proper.congr _ leave_alike
  have inCache : ∀ a, (((s.removeEntry (s.resources r).url).modify r fun resource =>
      { resource with inCache := false }).resources a).inCache =
        if a = r then false else (s.resources a).inCache := by
    intro a
    by_cases same : a = r
    · rw [same, modify_self, if_pos rfl]
    · rw [modify_of_ne same, if_neg same]
      rfl
  have keeps : ∀ {β : Type} (field : CachedResource Url → β),
      (∀ resource, field { resource with inCache := false } = field resource) → ∀ a,
        field (((s.removeEntry (s.resources r).url).modify r fun resource =>
          { resource with inCache := false }).resources a) = field (s.resources a) :=
    fun field same a => modify_keeps (s := s.removeEntry _) field same a
  refine ⟨fun url a found => ?_, fun a beyond => ?_, fun n a => ?_, fun n => ?_, fun n m a => ?_⟩
  · change (s.removeEntry (s.resources r).url).get url = some a at found
    rw [get_removeEntry] at found
    split at found
    · cases found
    · rename_i other
      obtain ⟨inside, named⟩ := proper.entries url a found
      have different : a ≠ r := by
        rintro rfl
        exact other named.symm
      rw [inCache, if_neg different, keeps (·.url) fun _ => rfl]
      exact ⟨inside, named⟩
  · obtain ⟨out, off⟩ := proper.fresh a beyond
    rw [inCache, keeps (·.validating) fun _ => rfl, out]
    exact ⟨ite_self _, off⟩
  · rw [keeps (·.resourceToRevalidate) fun _ => rfl]
    exact proper.known n a
  · rw [keeps (·.validating) fun _ => rfl, keeps (·.resourceToRevalidate) fun _ => rfl]
    intro on
    obtain ⟨a, found, out⟩ := proper.outside n on
    refine ⟨a, found, .inl ?_⟩
    rw [inCache]
    split
    · rfl
    · rename_i different
      obtain out | here := out
      · exact out
      · obtain none | some_ := this
        · rw [none] at here
          cases here
        · rw [some_] at here
          exact absurd (Option.some.inj here).symm different
  · rw [keeps (·.validating) fun _ => rfl, keeps (·.validating) fun _ => rfl,
      keeps (·.resourceToRevalidate) fun _ => rfl, keeps (·.resourceToRevalidate) fun _ => rfl]
    exact proper.unique n m a

theorem Proper.evict (proper : Proper leaving s) (this : leaving = none ∨ leaving = some r) :
    Proper none (s.evict r) := by
  have left : Proper none (if (s.resources r).inCache then s.leave r else s) := by
    split
    · exact proper.leave this
    · rename_i outside
      rw [Bool.not_eq_true] at outside
      refine { proper with outside := fun n on => ?_ }
      obtain ⟨a, found, out | here⟩ := proper.outside n on
      · exact ⟨a, found, .inl out⟩
      · obtain none | some_ := this
        · rw [none] at here
          cases here
        · rw [some_] at here
          cases here
          exact ⟨r, found, .inl outside⟩
  unfold Cache.evict
  dsimp only
  generalize (if (s.resources r).inCache then s.leave r else s) = rest at *
  split
  · exact left.congr Alike.refl.delete
  · exact left

/-- A new resource is outside of the cache. -/
theorem Proper.create (proper : Proper none s) (type : CachedResourceType) (url : Url) :
    Proper none (s.create type url) := by
  have self : (s.create type url).resources s.created = { url := url, type := type } :=
    Function.update_self ..
  have others : ∀ a, a ≠ s.created → (s.create type url).resources a = s.resources a :=
    fun a different => Function.update_of_ne different ..
  have later : ∀ n a, ((s.create type url).resources n).resourceToRevalidate = some a →
      a < s.created ∧ a ≠ n := by
    intro n a
    by_cases same : n = s.created
    · rw [same, self]
      rintro ⟨⟩
    · rw [others n same]
      exact proper.known n a
  have waits : ∀ n, ((s.create type url).resources n).validating = true → n ≠ s.created := by
    rintro n on rfl
    rw [self] at on
    cases on
  refine ⟨fun named a found => ?_, fun a beyond => ?_, fun n a found => ?_, fun n on => ?_,
    fun n m a on_n on_m => ?_⟩
  · obtain ⟨inside, same⟩ := proper.entries named a found
    have different : a ≠ s.created := by
      rintro rfl
      rw [(proper.fresh s.created (le_refl _)).1] at inside
      cases inside
    rw [others a different]
    exact ⟨inside, same⟩
  · have beyond : s.created + 1 ≤ a := beyond
    rw [others a (by omega)]
    exact proper.fresh a (by omega)
  · exact ⟨Nat.lt_succ_of_lt (later n a found).1, (later n a found).2⟩
  · have different := waits n on
    rw [others n different] at on ⊢
    obtain ⟨a, found, out⟩ := proper.outside n on
    have below := (proper.known n a found).1
    exact ⟨a, found, by rw [others a (by omega)]; exact out⟩
  · have first := waits n on_n
    have second := waits m on_m
    rw [others n first] at on_n ⊢
    rw [others m second] at on_m ⊢
    exact proper.unique n m a on_n on_m

/-- A resource that nobody waits for may come into the cache. -/
theorem Proper.enter {change : CachedResource Url → CachedResource Url} (proper : Proper none s)
    (within : r < s.created)
    (same : ∀ resource, (change resource).key =
      ({ resource with inCache := true } : CachedResource Url).key)
    (unwanted : ∀ n, (s.resources n).validating = true →
      (s.resources n).resourceToRevalidate ≠ some r) :
    Proper none (s.modify r change) := by
  have keeps : ∀ {β : Type} (field : Url × Bool × Bool × Option Nat → β),
      (∀ resource : CachedResource Url,
        field ({ resource with inCache := true } : CachedResource Url).key =
          field resource.key) → ∀ a,
      field ((s.modify r change).resources a).key = field (s.resources a).key :=
    fun field equal a => modify_keeps (fun resource => field resource.key)
      (fun resource => by rw [same, equal]) a
  have url : ∀ a, ((s.modify r change).resources a).url = (s.resources a).url :=
    keeps (·.1) fun _ => rfl
  have validating : ∀ a, ((s.modify r change).resources a).validating =
      (s.resources a).validating := keeps (·.2.2.1) fun _ => rfl
  have target : ∀ a, ((s.modify r change).resources a).resourceToRevalidate =
      (s.resources a).resourceToRevalidate := keeps (·.2.2.2) fun _ => rfl
  have inCache : ∀ a, ((s.modify r change).resources a).inCache =
      if a = r then true else (s.resources a).inCache := by
    intro a
    by_cases equal : a = r
    · rw [equal, modify_self, if_pos rfl]
      exact congrArg (·.2.1) (same _)
    · rw [modify_of_ne equal, if_neg equal]
  refine ⟨fun named a found => ?_, fun a beyond => ?_, fun n a => ?_, fun n on => ?_, fun n m a => ?_⟩
  · obtain ⟨inside, equal⟩ := proper.entries named a found
    rw [inCache, url, inside]
    exact ⟨ite_self _, equal⟩
  · have beyond : s.created ≤ a := beyond
    rw [inCache, validating, if_neg (by omega)]
    exact proper.fresh a beyond
  · rw [target]
    exact proper.known n a
  · rw [validating] at on
    obtain ⟨a, found, out | here⟩ := proper.outside n on
    · have different : a ≠ r := by
        rintro rfl
        exact unwanted n on found
      rw [target]
      exact ⟨a, found, .inl (by rw [inCache, if_neg different]; exact out)⟩
    · cases here
  · rw [validating, validating, target, target]
    exact proper.unique n m a

theorem Proper.setEntry (proper : Proper none s) (inside : (s.resources r).inCache = true) :
    Proper none (s.setEntry (s.resources r).url r) := by
  refine ⟨fun url a found => ?_, proper.fresh, proper.known, proper.outside, proper.unique⟩
  rw [get_setEntry] at found
  split at found
  · rename_i same
    cases found
    exact ⟨inside, same.symm⟩
  · exact proper.entries url a found

end

end Cache

end WkcBrowser.MemoryCache
