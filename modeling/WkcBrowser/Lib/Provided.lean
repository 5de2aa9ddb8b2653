/-! Computations that succeed exactly under a condition. Where every step needs more room than the
one before it, the whole succeeds exactly when there is room for the last one. -/

namespace WkcBrowser.Lib.Provided

variable {α β : Type} {room room' : Prop} {x : Option α} {post : α → Prop}

/-- The computation succeeds exactly when there is room, and then with what is expected. -/
structure Provided (room : Prop) (x : Option α) (post : α → Prop) : Prop where
  succeeds : room → ∃ a, x = some a ∧ post a
  needed : ∀ a, x = some a → room

theorem Provided.found (provided : Provided room x post) {a : α} (same : x = some a) : post a := by
  obtain ⟨b, same', holds⟩ := provided.succeeds (provided.needed a same)
  obtain rfl := Option.some.inj (same.symm.trans same')
  exact holds

theorem provided_some {a : α} (enough : room) (holds : post a) : Provided room (some a) post :=
  ⟨fun _ => ⟨a, rfl, holds⟩, fun _ _ => enough⟩

theorem provided_none (missing : ¬room) : Provided room (none : Option α) post :=
  ⟨fun enough => absurd enough missing, fun _ found => nomatch found⟩

theorem provided_ite [Decidable room] {a : α} (holds : room → post a) :
    Provided room (if room then some a else none) post := by
  split
  · exact provided_some ‹_› (holds ‹_›)
  · exact provided_none ‹_›

theorem Provided.bind {f : α → Option β} {post' : β → Prop} (first : Provided room x post)
    (more : room' → room) (second : ∀ a, room → post a → Provided room' (f a) post') :
    Provided room' (x >>= f) post' where
  succeeds enough := by
    obtain ⟨a, same, holds⟩ := first.succeeds (more enough)
    obtain ⟨b, same', holds'⟩ := (second a (more enough) holds).succeeds enough
    exact ⟨b, by rw [same]; exact same', holds'⟩
  needed b found := by
    obtain ⟨a, same, found'⟩ := Option.bind_eq_some_iff.mp found
    exact (second a (first.needed a same) (first.found same)).needed b found'

theorem Provided.mono {post' : α → Prop} (provided : Provided room x post)
    (weaker : ∀ a, room → post a → post' a) : Provided room x post' :=
  ⟨fun enough => (provided.succeeds enough).imp fun a found =>
      ⟨found.1, weaker a enough found.2⟩,
    provided.needed⟩

/-- What comes after a computation and cannot fail. -/
theorem Provided.map {post' : β → Prop} (provided : Provided room x post) (f : α → β)
    (holds : ∀ a, room → post a → post' (f a)) :
    Provided room (x >>= fun a => some (f a)) post' :=
  provided.bind id fun a enough found => provided_some enough (holds a enough found)

theorem Provided.congr (provided : Provided room x post) (same : room' ↔ room) :
    Provided room' x post :=
  ⟨fun enough => provided.succeeds (same.mp enough),
    fun a found => same.mpr (provided.needed a found)⟩

end WkcBrowser.Lib.Provided
