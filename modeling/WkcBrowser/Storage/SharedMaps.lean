import Mathlib.Data.List.NodupEquivFin
import WkcBrowser.Storage.QuotaAccounting

/-! Storage areas that share maps: when every call keeps the lengths right and leaves the other areas
alone. -/

namespace WkcBrowser.Storage

open Wtf Lib

namespace Areas

/-- The map that a call of `setItem` or `removeItem` changes: the own one or the copy. -/
def written (s : Areas) (map : Nat) : StorageMap :=
  if s.refCount map > 1 then (s.maps map).copy else s.maps map

def Tracked (s : Areas) : Prop := ∀ area map, s.mapOf area = some map → (s.maps map).Tracked

/-- A new map gets a number that no area has. -/
def Bounded (s : Areas) : Prop := ∀ area map, s.mapOf area = some map → map < s.created

def Underflows (s : Areas) : Event → Prop
  | .setItem area key value => ∃ map ∈ s.mapOf area, (s.written map).SetUnderflows key value
  | .removeItem area key => ∃ map ∈ s.mapOf area, (s.written map).RemoveUnderflows key
  | _ => False

/-- What the accounting promises for a call. -/
structure Accounted (s : Areas) (event : Event) : Prop where
  tracked : (s.step event).Tracked
  withinQuota : ∀ area key value, event = .setItem area key value →
    (s.perform event).2.quotaException = false → ∀ map ∈ (s.step event).mapOf area,
      ((s.step event).maps map).quotaSize ≠ noQuota →
        totalLength ((s.step event).maps map).map * 2 ≤ ((s.step event).maps map).quotaSize.toNat
  refused : (s.perform event).2.quotaException = true →
    ∀ area, (s.step event).contents area = s.contents area
  noUnderflow : ¬s.Underflows event
  others : ∀ other < s.areas.length, event.area ≠ some other →
    (s.step event).contents other = s.contents other

/-- A shared map is written while it has no characters only, an imported item is new to a map that is not
shared, and the lengths do not exceed what a counter has. -/
def Careful (s : Areas) : Event → Prop
  | .setItem area key value => ∀ map ∈ s.mapOf area,
      (s.refCount map > 1 → totalLength (s.maps map).map = 0) ∧ (s.maps map).Fits key value
  | .removeItem area _ => ∀ map ∈ s.mapOf area,
      s.refCount map > 1 → totalLength (s.maps map).map = 0
  | .importItem area key value => ∀ map ∈ s.mapOf area,
      if key ∈ (s.maps map).map then key.size = 0 ∧ value.size = 0
      else s.refCount map ≤ 1 ∧ totalLength (s.maps map).map + key.size + value.size < 2 ^ 32
  | _ => True

section
variable {s : Areas} {area other map : Nat} {m : StorageMap}

/-- A map is shared when two areas have it. -/
theorem shared_iff : s.refCount map > 1 ↔
    ∃ area other, area ≠ other ∧ s.mapOf area = some map ∧ s.mapOf other = some map := by
  have twice : s.refCount map > 1 ↔ List.Duplicate (some map) s.areas := by
    rw [List.duplicate_iff_sublist]
    exact List.replicate_sublist_iff.symm
  unfold mapOf
  rw [twice, List.duplicate_iff_exists_distinct_get]
  constructor
  · rintro ⟨n, k, less, first, second⟩
    refine ⟨n, k, by omega, ?_, ?_⟩
    · rw [List.getElem?_eq_getElem n.isLt]
      exact first.symm
    · rw [List.getElem?_eq_getElem k.isLt]
      exact second.symm
  · rintro ⟨a, b, different, first, second⟩
    rw [Option.join_eq_some_iff] at first second
    obtain ⟨short, first⟩ := List.getElem?_eq_some_iff.mp first
    obtain ⟨short', second⟩ := List.getElem?_eq_some_iff.mp second
    obtain less | less := Nat.lt_or_gt_of_ne different
    · exact ⟨⟨a, short⟩, ⟨b, short'⟩, less, first.symm, second.symm⟩
    · exact ⟨⟨b, short'⟩, ⟨a, short⟩, less, second.symm, first.symm⟩

theorem lt_of_mapOf (held : s.mapOf area = some map) : area < s.areas.length := by
  unfold mapOf at held
  rw [Option.join_eq_some_iff] at held
  exact (List.getElem?_eq_some_iff.mp held).1

theorem mapOf_set (short : area < s.areas.length) (next : Option Nat) (other : Nat) :
    ((s.areas.set area next)[other]?).join = if other = area then next else s.mapOf other := by
  unfold mapOf
  rw [List.getElem?_set]
  by_cases same : other = area
  · rw [if_pos same.symm, same, if_pos short, if_pos rfl]
    rfl
  · rw [if_neg (Ne.symm same), if_neg same]

/-! An area gets a map of its own. -/

theorem mapOf_replace (held : s.mapOf area = some map) (m : StorageMap) (other : Nat) :
    (s.replace area m).mapOf other = if other = area then some s.created else s.mapOf other :=
  mapOf_set (lt_of_mapOf held) _ other

theorem bounded_replace (bounded : s.Bounded) (held : s.mapOf area = some map) (m : StorageMap) :
    (s.replace area m).Bounded := by
  intro other found there
  rw [mapOf_replace held] at there
  change found < s.created + 1
  split at there
  · cases there
    exact Nat.lt_succ_self _
  · exact Nat.lt_succ_of_lt (bounded other found there)

theorem tracked_replace (bounded : s.Bounded) (tracked : s.Tracked)
    (held : s.mapOf area = some map) : (s.replace area m).Tracked ↔ m.Tracked := by
  constructor
  · intro every
    have here := every area s.created (by rw [mapOf_replace held, if_pos rfl])
    change (Function.update s.maps s.created m s.created).Tracked at here
    rwa [Function.update_self] at here
  · intro here other found there
    rw [mapOf_replace held] at there
    change (Function.update s.maps s.created m found).Tracked
    split at there
    · cases there
      rwa [Function.update_self]
    · rw [Function.update_of_ne (bounded other found there).ne]
      exact tracked other found there

theorem contents_replace (bounded : s.Bounded) (held : s.mapOf area = some map) (m : StorageMap)
    (other : Nat) : (s.replace area m).contents other =
      if other = area then some m.map else s.contents other := by
  unfold contents
  rw [mapOf_replace held]
  split
  · change some (Function.update s.maps s.created m s.created).map = _
    rw [Function.update_self]
  · cases there : s.mapOf other with
    | none => rfl
    | some found =>
      change some (Function.update s.maps s.created m found).map = some (s.maps found).map
      rw [Function.update_of_ne (bounded other found there).ne]

/-! The map of an area is written. -/

theorem tracked_write (tracked : s.Tracked) (held : s.mapOf area = some map) :
    (s.write map m).Tracked ↔ m.Tracked := by
  constructor
  · intro every
    have here := every area map held
    change (Function.update s.maps map m map).Tracked at here
    rwa [Function.update_self] at here
  · intro here other found there
    change (Function.update s.maps map m found).Tracked
    by_cases same : found = map
    · rwa [same, Function.update_self]
    · rw [Function.update_of_ne same]
      exact tracked other found there

theorem contents_write (m : StorageMap) (other : Nat) : (s.write map m).contents other =
    if s.mapOf other = some map then some m.map else s.contents other := by
  unfold contents
  change ((s.mapOf other).map fun found => (Function.update s.maps map m found).map) = _
  cases there : s.mapOf other with
  | none => rfl
  | some found =>
    rw [Option.map_some]
    by_cases same : found = map
    · rw [same, Function.update_self, if_pos rfl]
    · rw [Function.update_of_ne same, if_neg fun equal => same (Option.some.inj equal)]
      rfl

/-- Nothing else has a map that is not shared. -/
theorem own_map (alone : ¬s.refCount map > 1) (held : s.mapOf area = some map)
    (different : other ≠ area) : s.mapOf other ≠ some map := by
  intro there
  exact alone (shared_iff.mpr ⟨other, area, different, there, held⟩)

/-! A call that copies before it writes. -/

section
variable {change : StorageMap → StorageMap × Result}

theorem copyOnWrite_result (held : s.mapOf area = some map) :
    (s.copyOnWrite area change).2 = (change (s.written map)).2 := by
  unfold copyOnWrite written
  rw [held]
  dsimp only
  split <;> rfl

theorem tracked_copyOnWrite (bounded : s.Bounded) (tracked : s.Tracked)
    (held : s.mapOf area = some map) :
    (s.copyOnWrite area change).1.Tracked ↔ (change (s.written map)).1.Tracked := by
  unfold copyOnWrite written
  rw [held]
  dsimp only
  split
  · exact tracked_replace bounded tracked held
  · exact tracked_write tracked held

/-- The area has what was changed, and the others have what they had. -/
theorem copyOnWrite_maps (bounded : s.Bounded) (held : s.mapOf area = some map) :
    (∃ found, (s.copyOnWrite area change).1.mapOf area = some found ∧
      (s.copyOnWrite area change).1.maps found = (change (s.written map)).1) ∧
    ∀ other, (s.copyOnWrite area change).1.contents other =
      if other = area then some (change (s.written map)).1.map else s.contents other := by
  unfold copyOnWrite written
  rw [held]
  dsimp only
  split
  · refine ⟨⟨s.created, ?_, Function.update_self ..⟩, contents_replace bounded held _⟩
    rw [mapOf_replace held, if_pos rfl]
  · rename_i alone
    refine ⟨⟨map, held, Function.update_self ..⟩, fun other => ?_⟩
    rw [contents_write]
    by_cases same : other = area
    · rw [same, held, if_pos rfl, if_pos rfl]
    · rw [if_neg (own_map alone held same), if_neg same]

end

theorem written_short (tracked : s.Tracked) (held : s.mapOf area = some map) :
    totalLength (s.maps map).map < 2 ^ 32 := by
  have same : (s.maps map).currentLength.toNat = totalLength (s.maps map).map :=
    tracked area map held
  rw [← same]
  exact (s.maps map).currentLength.isLt

theorem sets_written_iff (tracked : s.Tracked) (held : s.mapOf area = some map) {key value : Str} :
    (s.written map).Sets key value ↔
      (s.refCount map > 1 → totalLength (s.maps map).map = 0) ∧ (s.maps map).Fits key value := by
  unfold written
  split
  · rename_i shared
    rw [StorageMap.copy_sets_iff (written_short tracked held), forall_prop_of_true shared]
  · rename_i alone
    rw [StorageMap.sets_iff_fits (tracked area map held), forall_prop_of_false alone, true_and]

theorem removes_written_iff (tracked : s.Tracked) (held : s.mapOf area = some map) {key : Str} :
    (s.written map).Removes key ↔ (s.refCount map > 1 → totalLength (s.maps map).map = 0) := by
  have short := written_short tracked held
  unfold written
  split
  · rename_i shared
    have short' : totalLength (s.maps map).copy.map < 2 ^ 32 := short
    rw [forall_prop_of_true shared, StorageMap.removes_iff short', StorageMap.copy_tracked_iff]
  · rename_i alone
    rw [forall_prop_of_false alone, StorageMap.removes_iff short]
    exact iff_true_intro (tracked area map held)

/-! One call. -/

theorem contents_written (held : s.mapOf area = some map) :
    s.contents area = some (s.written map).map := by
  rw [contents, held, written]
  split <;> rfl

/-- A call for an area that is closed does nothing. -/
theorem copyOnWrite_none {change : StorageMap → StorageMap × Result} (none : s.mapOf area = none) :
    s.copyOnWrite area change = (s, {}) := by
  rw [copyOnWrite, none]

theorem forall_mem_of_held (held : s.mapOf area = some map) {p : Nat → Prop} :
    (∀ found ∈ s.mapOf area, p found) ↔ p map := by
  rw [held]
  exact ⟨fun every => every map rfl, fun here found same => Option.mem_some.mp same ▸ here⟩

theorem perform_setItem (s : Areas) (area : Nat) (key value : Str) :
    s.perform (.setItem area key value) = s.copyOnWrite area fun m => m.setOwnItem key value := rfl

theorem perform_removeItem (s : Areas) (area : Nat) (key : Str) :
    s.perform (.removeItem area key) = s.copyOnWrite area fun m => m.removeOwnItem key := rfl

theorem setItem_iff (bounded : s.Bounded) (tracked : s.Tracked) (area : Nat) (key value : Str) :
    s.Accounted (.setItem area key value) ↔ s.Careful (.setItem area key value) := by
  change _ ↔ ∀ map ∈ s.mapOf area, _
  cases held : s.mapOf area with
  | none =>
    have stays := copyOnWrite_none held ▸ s.perform_setItem area key value
    have step : s.step (.setItem area key value) = s := congrArg Prod.fst stays
    refine iff_of_true ⟨by rwa [step], ?_, fun _ _ => by rw [step], ?_, fun _ _ _ => by rw [step]⟩
      fun map none => by simp at none
    · rintro _ _ _ ⟨⟩ - map there
      rw [step, held] at there
      simp at there
    · rintro ⟨map, there, -⟩
      rw [held] at there
      simp at there
  | some map =>
    rw [← held, forall_mem_of_held held, ← sets_written_iff tracked held]
    obtain ⟨⟨found, there, written⟩, contents⟩ :=
      @copyOnWrite_maps s area map (fun m => m.setOwnItem key value) bounded held
    have result := @copyOnWrite_result s area map (fun m => m.setOwnItem key value) held
    rw [← perform_setItem] at result
    have isTracked :=
      @tracked_copyOnWrite s area map (fun m => m.setOwnItem key value) bounded tracked held
    change (s.step (.setItem area key value)).Tracked ↔ _ at isTracked
    have quota := (s.written map).setOwnItem_quotaSize key value
    change (s.step (.setItem area key value)).maps found = _ at written
    change (s.step (.setItem area key value)).mapOf area = _ at there
    constructor
    · intro accounted
      refine ⟨isTracked.mp accounted.tracked, fun less => accounted.noUnderflow ⟨map, held, less⟩,
        StorageMap.setOwnItem_refused, fun accepted limited => ?_⟩
      have within := accounted.withinQuota area key value rfl (by rw [result, accepted]) found there
      rw [written, quota] at within
      exact within limited
    · intro sets
      refine ⟨isTracked.mpr sets.tracked, ?_, fun refused other => ?_, ?_, fun other _ different => ?_⟩
      · rintro _ _ _ ⟨⟩ accepted found' there' limited
        rw [there] at there'
        cases there'
        rw [result] at accepted
        rw [written, quota] at limited ⊢
        exact sets.withinQuota accepted limited
      · rw [result] at refused
        refine (contents other).trans ?_
        rw [sets.refused refused]
        split
        · rename_i same
          rw [same, contents_written held]
        · rfl
      · rintro ⟨found, same, less⟩
        rw [held] at same
        cases same
        exact sets.noUnderflow less
      · refine (contents other).trans (if_neg ?_)
        rintro rfl
        exact different rfl

theorem removeItem_iff (bounded : s.Bounded) (tracked : s.Tracked) (area : Nat) (key : Str) :
    s.Accounted (.removeItem area key) ↔ s.Careful (.removeItem area key) := by
  change _ ↔ ∀ map ∈ s.mapOf area, _
  cases held : s.mapOf area with
  | none =>
    have stays := copyOnWrite_none held ▸ s.perform_removeItem area key
    have step : s.step (.removeItem area key) = s := congrArg Prod.fst stays
    refine iff_of_true ⟨by rwa [step], ?_, fun _ _ => by rw [step], ?_, fun _ _ _ => by rw [step]⟩
      fun map none => by simp at none
    · rintro _ _ _ ⟨⟩
    · rintro ⟨map, there, -⟩
      rw [held] at there
      simp at there
  | some map =>
    rw [← held, forall_mem_of_held held, ← removes_written_iff tracked held]
    obtain ⟨-, contents⟩ :=
      @copyOnWrite_maps s area map (fun m => m.removeOwnItem key) bounded held
    have result := @copyOnWrite_result s area map (fun m => m.removeOwnItem key) held
    rw [← perform_removeItem] at result
    have isTracked :=
      @tracked_copyOnWrite s area map (fun m => m.removeOwnItem key) bounded tracked held
    change (s.step (.removeItem area key)).Tracked ↔ _ at isTracked
    constructor
    · intro accounted
      exact ⟨isTracked.mp accounted.tracked, fun less => accounted.noUnderflow ⟨map, held, less⟩⟩
    · intro removes
      refine ⟨isTracked.mpr removes.tracked, ?_, fun refused => ?_, ?_, fun other _ different => ?_⟩
      · rintro _ _ _ ⟨⟩
      · rw [result] at refused
        cases refused
      · rintro ⟨found, same, less⟩
        rw [held] at same
        cases same
        exact removes.noUnderflow less
      · refine (contents other).trans (if_neg ?_)
        rintro rfl
        exact different rfl

/-- An import is made of the map itself. -/
theorem importItem_iff (tracked : s.Tracked) (area : Nat) (key value : Str) :
    s.Accounted (.importItem area key value) ↔ s.Careful (.importItem area key value) := by
  change _ ↔ ∀ map ∈ s.mapOf area, _
  have result : (s.perform (.importItem area key value)).2 = {} := by
    unfold perform
    dsimp only
    cases s.mapOf area <;> rfl
  cases held : s.mapOf area with
  | none =>
    have step : s.step (.importItem area key value) = s := by
      unfold step perform
      dsimp only
      rw [held]
    refine iff_of_true ⟨by rwa [step], ?_, fun _ _ => by rw [step], id, fun _ _ _ => by rw [step]⟩
      fun map none => by simp at none
    rintro _ _ _ ⟨⟩
  | some map =>
    rw [← held, forall_mem_of_held held]
    have step : s.step (.importItem area key value) =
        s.write map ((s.maps map).importItem key value) := by
      unfold Areas.step perform
      dsimp only
      rw [held]
    have isTracked := @tracked_write s area map ((s.maps map).importItem key value) tracked held
    rw [← step, StorageMap.importItem_tracked (tracked area map held)] at isTracked
    have contents : ∀ other, (s.step (.importItem area key value)).contents other =
        if s.mapOf other = some map then some ((s.maps map).importItem key value).map
        else s.contents other := by
      rw [step]
      exact contents_write _
    constructor
    · intro accounted
      have fits := isTracked.mp accounted.tracked
      by_cases known : key ∈ (s.maps map).map
      · rw [if_pos known] at fits ⊢
        exact fits
      · rw [if_neg known] at fits ⊢
        refine ⟨?_, fits⟩
        by_contra shared
        -- Another area has the item too.
        obtain ⟨other, different, there⟩ : ∃ other, other ≠ area ∧ s.mapOf other = some map := by
          obtain ⟨a, b, distinct, first, second⟩ := shared_iff.mp (Nat.lt_of_not_le shared)
          by_cases same : a = area
          · exact ⟨b, fun equal => distinct (same.trans equal.symm), second⟩
          · exact ⟨a, same, first⟩
        have kept := accounted.others other (lt_of_mapOf there) fun same =>
          different (Option.some.inj same).symm
        rw [contents, if_pos there, Areas.contents, there, Option.map_some, Option.some.injEq,
          StorageMap.importItem] at kept
        dsimp only at kept
        rw [if_neg known] at kept
        exact known (kept ▸ (AList.mem_insert _).mpr (.inl rfl))
    · intro careful
      refine ⟨isTracked.mpr ?_, ?_, fun refused => ?_, id, fun other _ different => ?_⟩
      · by_cases known : key ∈ (s.maps map).map
        · rw [if_pos known] at careful ⊢
          exact careful
        · rw [if_neg known] at careful ⊢
          exact careful.2
      · rintro _ _ _ ⟨⟩
      · rw [result] at refused
        cases refused
      · rw [contents]
        split
        · rename_i there
          by_cases known : key ∈ (s.maps map).map
          · rw [Areas.contents, there, StorageMap.importItem, if_pos known]
            rfl
          · rw [if_neg known] at careful
            have distinct : other ≠ area := by
              rintro rfl
              exact different rfl
            exact absurd there (own_map (Nat.not_lt.mpr careful.1) held distinct)
        · rfl

/-- What a call without arguments of items promises. -/
theorem accounted_of_contents {event : Event} (tracked : (s.step event).Tracked)
    (result : (s.perform event).2 = {}) (noItems : ¬s.Underflows event)
    (noSet : ∀ area key value, event ≠ .setItem area key value)
    (others : ∀ other < s.areas.length, event.area ≠ some other →
      (s.step event).contents other = s.contents other) : s.Accounted event := by
  refine ⟨tracked, fun area key value same => absurd same (noSet area key value), fun refused => ?_,
    noItems, others⟩
  rw [result] at refused
  cases refused

theorem mapOf_append (s : Areas) (next : Option Nat) (other : Nat) :
    ((s.areas ++ [next])[other]?).join =
      if other = s.areas.length then next else s.mapOf other := by
  unfold mapOf
  obtain less | rfl | more := Nat.lt_trichotomy other s.areas.length
  · rw [if_neg less.ne, List.getElem?_append_left less]
  · rw [if_pos rfl, List.getElem?_concat_length]
    rfl
  · rw [if_neg more.ne', List.getElem?_append_right more.le, List.getElem?_eq_none (Nat.le_of_lt more),
      List.getElem?_eq_none (Nat.sub_pos_of_lt more)]

theorem accounted_create (bounded : s.Bounded) (tracked : s.Tracked) (quota : BitVec 32) :
    s.Accounted (.create quota) := by
  have mapOf : ∀ other, (s.step (.create quota)).mapOf other =
      if other = s.areas.length then some s.created else s.mapOf other :=
    s.mapOf_append (some s.created)
  refine accounted_of_contents (fun other map there => ?_) rfl id (fun _ _ _ => nofun)
    fun other short _ => ?_
  · rw [mapOf] at there
    change (Function.update s.maps s.created _ map).Tracked
    split at there
    · cases there
      rw [Function.update_self]
      rfl
    · rw [Function.update_of_ne (bounded other map there).ne]
      exact tracked other map there
  · unfold contents
    rw [mapOf, if_neg short.ne]
    cases there : s.mapOf other with
    | none => rfl
    | some map =>
      change some (Function.update s.maps s.created _ map).map = some (s.maps map).map
      rw [Function.update_of_ne (bounded other map there).ne]

theorem accounted_copy (tracked : s.Tracked) (area : Nat) : s.Accounted (.copy area) := by
  have mapOf : ∀ other, (s.step (.copy area)).mapOf other =
      if other = s.areas.length then s.mapOf area else s.mapOf other :=
    s.mapOf_append (s.mapOf area)
  refine accounted_of_contents (fun other map there => ?_) rfl id (fun _ _ _ => nofun)
    fun other short _ => ?_
  · rw [mapOf] at there
    split at there
    · exact tracked area map there
    · exact tracked other map there
  · unfold contents
    rw [mapOf, if_neg short.ne]
    rfl

theorem accounted_clear (bounded : s.Bounded) (tracked : s.Tracked) (area : Nat) :
    s.Accounted (.clear area) := by
  have cleared : s.perform (.clear area) = (s, {}) ∨ ∃ map quota, s.mapOf area = some map ∧
      s.perform (.clear area) = (s.replace area { quotaSize := quota }, {}) := by
    unfold perform
    dsimp only
    cases held : s.mapOf area with
    | none => exact .inl rfl
    | some map =>
      by_cases empty : (s.maps map).map.keys = []
      · exact .inl (if_pos empty)
      · exact .inr ⟨map, (s.maps map).quotaSize, rfl, if_neg empty⟩
  obtain stays | ⟨map, quota, held, replaced⟩ := cleared
  · have step : s.step (.clear area) = s := congrArg Prod.fst stays
    exact accounted_of_contents (by rwa [step]) (congrArg Prod.snd stays) id (fun _ _ _ => nofun)
      fun _ _ _ => by rw [step]
  · have step : s.step (.clear area) = s.replace area { quotaSize := quota } :=
      congrArg Prod.fst replaced
    refine accounted_of_contents ?_ (congrArg Prod.snd replaced) id (fun _ _ _ => nofun)
      fun other _ different => ?_
    · rw [step, tracked_replace bounded tracked held]
      rfl
    · rw [step, contents_replace bounded held, if_neg]
      rintro rfl
      exact different rfl

theorem accounted_close (tracked : s.Tracked) (area : Nat) : s.Accounted (.close area) := by
  have mapOf : ∀ other, (s.step (.close area)).mapOf other =
      if other = area then none else s.mapOf other := by
    intro other
    by_cases short : area < s.areas.length
    · exact mapOf_set short none other
    · change ((s.areas.set area none)[other]?).join = _
      rw [List.set_eq_of_length_le (Nat.le_of_not_lt short)]
      split
      · rename_i same
        rw [same, List.getElem?_eq_none (Nat.le_of_not_lt short)]
        rfl
      · rfl
  refine accounted_of_contents (fun other map there => ?_) rfl id (fun _ _ _ => nofun)
    fun other _ different => ?_
  · rw [mapOf] at there
    split at there
    · cases there
    · exact tracked other map there
  · unfold contents
    rw [mapOf, if_neg]
    · rfl
    · rintro rfl
      exact different rfl

theorem accounted_iff_careful (bounded : s.Bounded) (tracked : s.Tracked) (event : Event) :
    s.Accounted event ↔ s.Careful event := by
  cases event with
  | setItem area key value => exact setItem_iff bounded tracked area key value
  | removeItem area key => exact removeItem_iff bounded tracked area key
  | importItem area key value => exact importItem_iff tracked area key value
  | create quota => exact iff_of_true (accounted_create bounded tracked quota) trivial
  | copy area => exact iff_of_true (accounted_copy tracked area) trivial
  | clear area => exact iff_of_true (accounted_clear bounded tracked area) trivial
  | close area => exact iff_of_true (accounted_close tracked area) trivial

theorem bounded_copyOnWrite (bounded : s.Bounded) (area : Nat)
    (change : StorageMap → StorageMap × Result) : (s.copyOnWrite area change).1.Bounded := by
  unfold copyOnWrite
  cases held : s.mapOf area with
  | none => exact bounded
  | some map =>
    dsimp only
    split
    · exact bounded_replace bounded held _
    · exact bounded

theorem bounded_step (bounded : s.Bounded) (event : Event) : (s.step event).Bounded := by
  cases event with
  | setItem area key value => exact bounded_copyOnWrite bounded area _
  | removeItem area key => exact bounded_copyOnWrite bounded area _
  | importItem area key value =>
    unfold step perform
    dsimp only
    cases s.mapOf area <;> exact bounded
  | create quota =>
    intro other map there
    change ((s.areas ++ [some s.created])[other]?).join = some map at there
    change map < s.created + 1
    rw [mapOf_append] at there
    split at there
    · cases there
      exact Nat.lt_succ_self _
    · exact Nat.lt_succ_of_lt (bounded other map there)
  | copy area =>
    intro other map there
    change ((s.areas ++ [s.mapOf area])[other]?).join = some map at there
    rw [mapOf_append] at there
    split at there
    · exact bounded area map there
    · exact bounded other map there
  | clear area =>
    unfold step perform
    dsimp only
    cases held : s.mapOf area with
    | none => exact bounded
    | some map =>
      dsimp only
      split
      · exact bounded
      · exact bounded_replace bounded held _
  | close area =>
    intro other map there
    change ((s.areas.set area none)[other]?).join = some map at there
    by_cases short : area < s.areas.length
    · rw [mapOf_set short] at there
      split at there
      · cases there
      · exact bounded other map there
    · rw [List.set_eq_of_length_le (Nat.le_of_not_lt short)] at there
      exact bounded other map there

/-- The accounting is right in a run exactly when every call of it is a careful one. -/
theorem accounted_along_iff (events : List Event) :
    Along step Accounted {} events ↔ Along step Careful {} events := by
  refine along_iff (fun s : Areas => s.Bounded ∧ s.Tracked) (fun s event sound _ => ?_)
    (fun s event sound _ (accounted : s.Accounted event) =>
      ⟨bounded_step sound.1 event, accounted.tracked⟩) {} events ⟨?_, ?_⟩
    (@along_of_forall _ _ step (fun _ _ => True) (fun _ _ => trivial) _ events)
  · exact accounted_iff_careful sound.1 sound.2 event
  · intro area map there
    cases there
  · intro area map there
    cases there

end

/-- An item of a shared map is removed for one area. -/
def removal : List Event :=
  [.create 10000000, .setItem 0 ⟨[0x61], by decide⟩ ⟨[0x62, 0x63], by decide⟩, .copy 0,
    .removeItem 1 ⟨[0x61], by decide⟩]

/-- The copy has counted nothing, so the removal takes away from nothing. -/
theorem not_accounted_removal : ¬Along step Accounted {} removal := by
  rintro ⟨-, -, -, accounted, -⟩
  have tracked := accounted.tracked 1 1 (by decide)
  exact absurd tracked (by decide)

end Areas

end WkcBrowser.Storage
