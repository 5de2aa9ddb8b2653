import WkcBrowser.Dom.ListenerVectors

/-! What adding and removing listeners does to the vectors and to the dispatches in progress. -/

namespace WkcBrowser.Dom

open Lib

variable {V E L : Type} [DecidableEq E] [DecidableEq L]

namespace EventTarget

variable {t : EventTarget V E L}

omit [DecidableEq L] in
theorem Vectors.of_entry (vectors : t.Vectors) {eventType : E} {address : Nat}
    {listeners : List (RegisteredEventListener L)}
    (found : t.entry eventType = some (address, listeners)) :
    listeners.Nodup ∧ listeners.length ≤ vectorLimit := by
  obtain ⟨lookup, here⟩ := entry_eq_some.mp found
  obtain ⟨listeners', present, nodup, limit⟩ := vectors.present _ _ lookup
  cases present.symm.trans here
  exact ⟨nodup, limit⟩

omit [DecidableEq L] in
theorem Vectors.lookup_none (vectors : t.Vectors) {eventType : E} (absent : t.entry eventType = none) :
    t.eventListenerMap.lookup eventType = none := by
  cases lookup : t.eventListenerMap.lookup eventType with
  | none => rfl
  | some address =>
    obtain ⟨listeners, present, -⟩ := vectors.present _ _ lookup
    rw [entry_eq_some.mpr ⟨lookup, present⟩] at absent
    cases absent

omit [DecidableEq L] in
/-- A vector gets other listeners. -/
theorem Vectors.update (vectors : t.Vectors) (address : Nat)
    {listeners : List (RegisteredEventListener L)} (nodup : listeners.Nodup)
    (limit : listeners.length ≤ vectorLimit) :
    Vectors { t with vectors := Function.update t.vectors address (some listeners) } where
  created := vectors.created
  present := by
    intro eventType' address' lookup'
    by_cases same : address' = address
    · rw [same]
      exact ⟨listeners, Function.update_self .., nodup, limit⟩
    · obtain ⟨listeners', present, rest⟩ := vectors.present _ _ lookup'
      exact ⟨listeners', (Function.update_of_ne same ..).trans present, rest⟩
  apart := vectors.apart

theorem add_spec (vectors : t.Vectors) {eventType : E} {registered : RegisteredEventListener L}
    {t' : EventTarget V E L} (added : t.addEventListener eventType registered = some t') :
    t'.Vectors ∧ t'.firingEventIterators = t.firingEventIterators ∧ t'.finished = t.finished ∧
      t'.overrun = t.overrun ∧ ∀ eventType' address listeners,
        t.entry eventType' = some (address, listeners) →
        ∃ new, t'.entry eventType' = some (address, listeners ++ new) := by
  unfold addEventListener at added
  cases found : t.entry eventType with
  | none =>
    rw [found] at added
    cases added
    have absent := vectors.lookup_none found
    have other : ∀ eventType', t.eventListenerMap.lookup eventType' ≠ none →
        eventType' ≠ eventType := by
      rintro eventType' some_ rfl
      exact some_ absent
    refine ⟨⟨fun eventType' address lookup => ?_, fun eventType' address lookup => ?_,
      fun eventType' eventType'' address lookup lookup' => ?_⟩, rfl, rfl, rfl, ?_⟩
    · by_cases same : eventType' = eventType
      · rw [same, AList.lookup_insert] at lookup
        cases lookup
        exact Nat.lt_succ_self _
      · rw [AList.lookup_insert_ne same] at lookup
        exact Nat.lt_succ_of_lt (vectors.created _ _ lookup)
    · by_cases same : eventType' = eventType
      · rw [same, AList.lookup_insert] at lookup
        cases lookup
        exact ⟨[registered], Function.update_self .., List.nodup_singleton _, Nat.le_of_ble_eq_true rfl⟩
      · rw [AList.lookup_insert_ne same] at lookup
        obtain ⟨listeners, present, rest⟩ := vectors.present _ _ lookup
        have before := vectors.created _ _ lookup
        exact ⟨listeners, (Function.update_of_ne (by omega) ..).trans present, rest⟩
    · by_cases same : eventType' = eventType <;> by_cases same' : eventType'' = eventType
      · rw [same, same']
      · rw [same, AList.lookup_insert] at lookup
        rw [AList.lookup_insert_ne same'] at lookup'
        have before := vectors.created _ _ lookup'
        cases lookup
        omega
      · rw [same', AList.lookup_insert] at lookup'
        rw [AList.lookup_insert_ne same] at lookup
        have before := vectors.created _ _ lookup
        cases lookup'
        omega
      · rw [AList.lookup_insert_ne same] at lookup
        rw [AList.lookup_insert_ne same'] at lookup'
        exact vectors.apart _ _ _ lookup lookup'
    · intro eventType' address listeners found'
      obtain ⟨lookup, present⟩ := entry_eq_some.mp found'
      have before := vectors.created _ _ lookup
      refine ⟨[], entry_eq_some.mpr ⟨?_, ?_⟩⟩
      · exact (AList.lookup_insert_ne (other _ (by rw [lookup]; simp))).trans lookup
      · rw [List.append_nil]
        exact (Function.update_of_ne (by omega) ..).trans present
  | some pair =>
    obtain ⟨address, listeners⟩ := pair
    rw [found] at added
    dsimp only at added
    obtain ⟨lookup, present⟩ := entry_eq_some.mp found
    obtain ⟨nodup, limit⟩ := vectors.of_entry found
    split_ifs at added with inside room
    · cases added
      exact ⟨vectors, rfl, rfl, rfl, fun _ _ listeners found =>
        ⟨[], by rw [found, List.append_nil]⟩⟩
    · cases added
      refine ⟨vectors.update address ?_ ?_, rfl, rfl, rfl, ?_⟩
      · rw [List.nodup_append]
        refine ⟨nodup, List.nodup_singleton _, fun a member b single => ?_⟩
        rw [List.mem_singleton.mp single]
        rintro rfl
        exact inside member
      · rw [List.length_append, List.length_singleton]
        omega
      · intro eventType' address' listeners' found'
        obtain ⟨lookup', present'⟩ := entry_eq_some.mp found'
        by_cases same : address' = address
        · rw [same] at present' lookup' ⊢
          cases present.symm.trans present'
          exact ⟨[registered], entry_eq_some.mpr ⟨lookup', Function.update_self ..⟩⟩
        · refine ⟨[], entry_eq_some.mpr ⟨lookup', ?_⟩⟩
          rw [List.append_nil]
          exact (Function.update_of_ne same ..).trans present'

/-- The vectors after a listener is removed; an empty one is deleted. -/
theorem remove_vectors (vectors : t.Vectors) {eventType : E} {address : Nat}
    {listeners : List (RegisteredEventListener L)}
    (found : t.entry eventType = some (address, listeners))
    {registered : RegisteredEventListener L} (member : registered ∈ listeners) :
    (t.removeEventListener eventType registered).Vectors ∧
      (listeners.erase registered ≠ [] →
        (t.removeEventListener eventType registered).entry eventType =
          some (address, listeners.erase registered)) ∧
      ∀ eventType', eventType' ≠ eventType →
        (t.removeEventListener eventType registered).entry eventType' = t.entry eventType' := by
  obtain ⟨lookup, present⟩ := entry_eq_some.mp found
  obtain ⟨nodup, limit⟩ := vectors.of_entry found
  have erased : listeners.eraseIdx (listeners.idxOf registered) = listeners.erase registered := by
    obtain ⟨before, after, rfl, absent⟩ := List.eq_append_cons_of_mem member
    rw [eraseIdx_split absent, erase_split absent]
  unfold removeEventListener
  rw [found]
  dsimp only
  rw [if_pos member, erased]
  by_cases empty : listeners.erase registered = []
  · rw [if_pos empty]
    have other : ∀ {eventType' address'}, (t.eventListenerMap.erase eventType).lookup eventType' =
        some address' → eventType' ≠ eventType ∧ t.eventListenerMap.lookup eventType' = some address' ∧
          address' ≠ address := by
      intro eventType' address' lookup'
      have different : eventType' ≠ eventType := by
        rintro rfl
        rw [AList.lookup_erase] at lookup'
        cases lookup'
      rw [AList.lookup_erase_ne different] at lookup'
      refine ⟨different, lookup', ?_⟩
      rintro rfl
      exact different (vectors.apart _ _ _ lookup' lookup)
    refine ⟨⟨fun _ _ lookup' => vectors.created _ _ (other lookup').2.1,
      fun eventType' address' lookup' => ?_, fun _ _ _ first second =>
        vectors.apart _ _ _ (other first).2.1 (other second).2.1⟩,
      fun some_left => absurd empty some_left, fun eventType' different => ?_⟩
    · obtain ⟨-, lookup'', apart⟩ := other lookup'
      obtain ⟨listeners', present', rest⟩ := vectors.present _ _ lookup''
      exact ⟨listeners', (Function.update_of_ne apart ..).trans present', rest⟩
    · unfold entry
      dsimp only
      rw [AList.lookup_erase_ne different]
      cases lookup' : t.eventListenerMap.lookup eventType' with
      | none => rfl
      | some address' =>
        have apart : address' ≠ address := by
          rintro rfl
          exact different (vectors.apart _ _ _ lookup' lookup)
        dsimp only
        rw [Function.update_of_ne apart]
  · rw [if_neg empty]
    have updated := vectors.update address (nodup.erase registered)
      (Nat.le_trans List.length_erase_le limit)
    refine ⟨⟨updated.created, updated.present, updated.apart⟩, fun _ => ?_,
      fun eventType' different => ?_⟩
    · exact entry_eq_some.mpr ⟨lookup, Function.update_self ..⟩
    · unfold entry
      dsimp only
      cases lookup' : t.eventListenerMap.lookup eventType' with
      | none => rfl
      | some address' =>
        have apart : address' ≠ address := by
          rintro rfl
          exact different (vectors.apart _ _ _ lookup' lookup)
        dsimp only
        rw [Function.update_of_ne apart]

end EventTarget

end WkcBrowser.Dom
