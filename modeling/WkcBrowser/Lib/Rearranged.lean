import Mathlib.Data.List.Perm.Basic

/-! Lists in other orders that keep the order of what has the same key, and a slot that is filled from a
list of two ranks: what is of the first rank replaces the value of the slot, what is of the second is only
taken when there is none. -/

namespace WkcBrowser.Lib

section
variable {α κ : Type} [DecidableEq κ] (key : α → κ)

/-- The elements of one key. -/
def ofKey (l : List α) (k : κ) : List α := l.filter fun a => key a = k

/-- The same elements, those of one key in the same order. -/
def Rearranged (l l' : List α) : Prop := l.Perm l' ∧ ∀ k, ofKey key l k = ofKey key l' k

variable {key} {l l' : List α}

theorem Rearranged.refl (l : List α) : Rearranged key l l := ⟨List.Perm.refl l, fun _ => rfl⟩

theorem ofKey_append (l l' : List α) (k : κ) : ofKey key (l ++ l') k = ofKey key l k ++ ofKey key l' k :=
  List.filter_append ..

theorem ofKey_cons_self (a : α) (l : List α) : ofKey key (a :: l) (key a) = a :: ofKey key l (key a) := by
  unfold ofKey
  exact List.filter_cons_of_pos (by simp)

/-- Of the elements with certain keys. -/
theorem ofKey_filter (chosen : κ → Bool) (l : List α) (k : κ) :
    ofKey key (l.filter fun a => chosen (key a)) k = if chosen k = true then ofKey key l k else [] := by
  unfold ofKey
  rw [List.filter_filter]
  split_ifs with here
  · congr 1
    funext a
    by_cases same : key a = k
    · simp [same, here]
    · simp [same]
  · rw [List.filter_eq_nil_iff]
    intro a _
    by_cases same : key a = k
    · simp [same, here]
    · simp [same]

/-- What has certain keys may come first. -/
theorem rearranged_front (first : κ → Bool) (l : List α) :
    Rearranged key l ((l.filter fun a => first (key a)) ++ l.filter fun a => !first (key a)) := by
  refine ⟨(List.filter_append_perm (fun a => first (key a)) l).symm, fun k => ?_⟩
  rw [ofKey_append, ofKey_filter, ofKey_filter fun k => !first k]
  cases first k with
  | true => exact (List.append_nil _).symm
  | false => exact (List.nil_append _).symm

end

/-- Whether a value replaces another, is taken when there is none, or is not taken. -/
inductive Rank where
  | first
  | second
  | neither
deriving DecidableEq

section
variable {α β : Type} (rank : α → Rank) (value : α → Option β)

def fill (slot : Option β) (a : α) : Option β :=
  match rank a with
  | .first => value a
  | .second => slot.or (value a)
  | .neither => slot

/-- The first value of an element of this rank. -/
def firstOfRank (r : Rank) (l : List α) : Option β := (l.filter fun a => rank a = r).findSome? value

/-- The value that has precedence. -/
def preferred (l : List α) : Option β := (firstOfRank rank value .first l).or (firstOfRank rank value .second l)

variable {rank value} {l l' : List α}

theorem firstOfRank_append (r : Rank) (l l' : List α) :
    firstOfRank rank value r (l ++ l') = (firstOfRank rank value r l).or (firstOfRank rank value r l') := by
  unfold firstOfRank
  rw [List.filter_append, List.findSome?_append]

theorem firstOfRank_eq_none {r : Rank} :
    firstOfRank rank value r l = none ↔ ∀ a ∈ l, rank a = r → value a = none := by
  unfold firstOfRank
  rw [List.findSome?_eq_none_iff]
  constructor
  · intro all a member ranked
    exact all a (List.mem_filter.mpr ⟨member, decide_eq_true ranked⟩)
  · intro all a member
    obtain ⟨member, ranked⟩ := List.mem_filter.mp member
    exact all a member (of_decide_eq_true ranked)

theorem foldl_fill_of_noFirst (noFirst : ∀ a ∈ l, rank a ≠ .first) (slot : Option β) :
    l.foldl (fill rank value) slot = slot.or (firstOfRank rank value .second l) := by
  induction l generalizing slot with
  | nil => exact (Option.or_none).symm
  | cons a l ih =>
    obtain ⟨here, behind⟩ := List.forall_mem_cons.mp noFirst
    rw [List.foldl_cons, ih behind, ← List.singleton_append, firstOfRank_append]
    cases ranked : rank a with
    | first => exact absurd ranked here
    | second =>
      have alone : firstOfRank rank value .second [a] = value a := by
        simp [firstOfRank, ranked]
      rw [alone, ← Option.or_assoc, fill, ranked]
    | neither =>
      have alone : firstOfRank rank value .second [a] = none := by
        rw [firstOfRank_eq_none]
        intro b member isSecond
        obtain rfl := List.mem_singleton.mp member
        cases ranked.symm.trans isSecond
      rw [alone, Option.none_or, fill, ranked]

/-- From the last element of the first rank on. -/
theorem foldl_fill_last {a : α} (ranked : rank a = .first) (noFirst : ∀ b ∈ l', rank b ≠ .first)
    (slot : Option β) : (l ++ a :: l').foldl (fill rank value) slot =
      (value a).or (firstOfRank rank value .second l') := by
  rw [List.foldl_append, List.foldl_cons, foldl_fill_of_noFirst noFirst, fill, ranked]

/-- The last element of the first rank, when there is one. -/
theorem exists_last (some_first : ∃ a ∈ l, rank a = .first) :
    ∃ before a behind, l = before ++ a :: behind ∧ rank a = .first ∧ ∀ b ∈ behind, rank b ≠ .first := by
  induction l with
  | nil =>
    obtain ⟨a, member, -⟩ := some_first
    cases member
  | cons c l ih =>
    by_cases later : ∃ a ∈ l, rank a = .first
    · obtain ⟨before, a, behind, rfl, ranked, noFirst⟩ := ih later
      exact ⟨c :: before, a, behind, rfl, ranked, noFirst⟩
    · obtain ⟨a, member, ranked⟩ := some_first
      rcases List.mem_cons.mp member with rfl | member
      · exact ⟨[], a, l, rfl, ranked, fun b listed isFirst => later ⟨b, listed, isFirst⟩⟩
      · exact absurd ⟨a, member, ranked⟩ later

end

section
variable {α β κ : Type} [DecidableEq κ] (key : α → κ) (rank : α → Rank) (value : α → Option β)

def firstValue (l : List α) (k : κ) : Option β := (ofKey key l k).findSome? value

def lastValue (l : List α) (k : κ) : Option β := (ofKey key l k).getLast?.bind value

/-- Nothing of the first rank and the keys of the second agree on their first value; or nothing has a value
though something of the first rank is there; or the keys of the first rank agree on their first and their
last values. -/
def Agree (l : List α) : Prop :=
  (∀ a ∈ l, rank a ≠ .first) ∧
      (∀ a ∈ l, ∀ b ∈ l, rank a = .second → rank b = .second → ∀ x y,
        firstValue key value l (key a) = some x → firstValue key value l (key b) = some y → x = y) ∨
    (∃ a ∈ l, rank a = .first) ∧ (∀ a ∈ l, rank a ≠ .neither → value a = none) ∨
    (∃ a ∈ l, rank a = .first) ∧ ∃ x, ∀ a ∈ l, rank a = .first →
      firstValue key value l (key a) = some x ∧ lastValue key value l (key a) = some x

/-- In any order the slot holds the same value, which is the one that has precedence. -/
def OrderFree (l : List α) : Prop :=
  ∀ l', Rearranged key l l' → l'.foldl (fill rank value) none = l.foldl (fill rank value) none ∧
    l'.foldl (fill rank value) none = preferred rank value l'

variable {key rank value} {l l' : List α}

theorem Rearranged.agree (rearranged : Rearranged key l l') (agree : Agree key rank value l) :
    Agree key rank value l' := by
  obtain ⟨perm, same⟩ := rearranged
  unfold Agree firstValue lastValue at *
  simp only [same, perm.mem_iff] at agree
  exact agree

/-- The first value of a rank is the first of its key. -/
theorem firstValue_of_firstOfRank (ranks : ∀ a b, key a = key b → rank a = rank b) {r : Rank} {x : β}
    (found : firstOfRank rank value r l = some x) :
    ∃ a ∈ l, rank a = r ∧ firstValue key value l (key a) = some x := by
  unfold firstOfRank at found
  obtain ⟨before, a, behind, split, filled, absent⟩ := List.findSome?_eq_some_iff.mp found
  have listed : a ∈ l.filter fun a => rank a = r := by
    rw [split]
    exact List.mem_append_right before List.mem_cons_self
  obtain ⟨member, ranked⟩ := List.mem_filter.mp listed
  have ranked := of_decide_eq_true ranked
  have keyed : ofKey key l (key a) = ofKey key (before ++ a :: behind) (key a) := by
    rw [← split]
    unfold ofKey
    rw [List.filter_filter]
    congr 1
    funext b
    by_cases same : key b = key a
    · simp [same, ranks b a same, ranked]
    · simp [same]
  refine ⟨a, member, ranked, ?_⟩
  have nothing : (ofKey key before (key a)).findSome? value = none := by
    rw [List.findSome?_eq_none_iff]
    intro b listed
    exact absent b (List.mem_filter.mp listed).1
  rw [firstValue, keyed, ofKey_append, ofKey_cons_self, List.findSome?_append, nothing, List.findSome?_cons,
    filled]
  rfl

/-- The last element of the first rank is the last of its key. -/
theorem lastValue_of_last (ranks : ∀ a b, key a = key b → rank a = rank b) {before behind : List α} {a : α}
    (ranked : rank a = .first) (noFirst : ∀ b ∈ behind, rank b ≠ .first) :
    lastValue key value (before ++ a :: behind) (key a) = value a := by
  have nothing : ofKey key behind (key a) = [] := by
    unfold ofKey
    rw [List.filter_eq_nil_iff]
    intro b listed same
    exact noFirst b listed ((ranks b a (of_decide_eq_true same)).trans ranked)
  rw [lastValue, ofKey_append, ofKey_cons_self, nothing, List.getLast?_append]
  rfl

/-- The first values of a rank, where the keys agree on them. -/
theorem firstOfRank_rearranged (ranks : ∀ a b, key a = key b → rank a = rank b)
    (rearranged : Rearranged key l l') {r : Rank}
    (agree : ∀ a ∈ l, ∀ b ∈ l, rank a = r → rank b = r → ∀ x y,
      firstValue key value l (key a) = some x → firstValue key value l (key b) = some y → x = y) :
    firstOfRank rank value r l' = firstOfRank rank value r l := by
  obtain ⟨perm, same⟩ := rearranged
  cases found : firstOfRank rank value r l with
  | none =>
    rw [firstOfRank_eq_none] at found ⊢
    intro a member
    exact found a (perm.mem_iff.mpr member)
  | some x =>
    cases found' : firstOfRank rank value r l' with
    | none =>
      have nothing : firstOfRank rank value r l = none := by
        rw [firstOfRank_eq_none] at found' ⊢
        intro a member
        exact found' a (perm.mem_iff.mp member)
      rw [nothing] at found
      cases found
    | some y =>
      obtain ⟨a, member, ranked, first⟩ := firstValue_of_firstOfRank ranks found
      obtain ⟨b, member', ranked', first'⟩ := firstValue_of_firstOfRank ranks found'
      have first' : firstValue key value l (key b) = some y := by
        rw [firstValue, same]
        exact first'
      rw [agree b (perm.mem_iff.mpr member') a member ranked' ranked y x first' first]

/-- The value that all keys of the first rank have. -/
theorem firstOfRank_of_all (ranks : ∀ a b, key a = key b → rank a = rank b) {x : β}
    (someFirst : ∃ a ∈ l, rank a = .first)
    (all : ∀ a ∈ l, rank a = .first →
      firstValue key value l (key a) = some x ∧ lastValue key value l (key a) = some x) :
    firstOfRank rank value .first l = some x ∧ l.foldl (fill rank value) none = some x := by
  obtain ⟨before, a, behind, rfl, ranked, noFirst⟩ := exists_last someFirst
  have member : a ∈ before ++ a :: behind := List.mem_append_right before List.mem_cons_self
  have last := (all a member ranked).2
  rw [lastValue_of_last ranks ranked noFirst] at last
  constructor
  · cases found : firstOfRank rank value .first (before ++ a :: behind) with
    | none =>
      rw [firstOfRank_eq_none.mp found a member ranked] at last
      cases last
    | some y =>
      obtain ⟨b, member', ranked', first⟩ := firstValue_of_firstOfRank ranks found
      rw [(all b member' ranked').1] at first
      exact first.symm
  · rw [foldl_fill_last ranked noFirst, last]
    rfl

theorem firstOfRank_first_of_absent (noFirst : ∀ a ∈ l, rank a ≠ .first) :
    firstOfRank rank value .first l = none := by
  rw [firstOfRank_eq_none]
  intro a member ranked
  exact absurd ranked (noFirst a member)

theorem firstOfRank_of_nothing (nothing : ∀ a ∈ l, rank a ≠ .neither → value a = none) {r : Rank}
    (counts : r ≠ .neither) : firstOfRank rank value r l = none := by
  rw [firstOfRank_eq_none]
  intro a member ranked
  exact nothing a member (by rw [ranked]; exact counts)

/-- When the keys agree the slot holds the value that has precedence. -/
theorem foldl_fill_of_agree (ranks : ∀ a b, key a = key b → rank a = rank b)
    (agree : Agree key rank value l) : l.foldl (fill rank value) none = preferred rank value l := by
  rcases agree with ⟨noFirst, -⟩ | ⟨-, nothing⟩ | ⟨someFirst, x, all⟩
  · rw [foldl_fill_of_noFirst noFirst, preferred, firstOfRank_first_of_absent noFirst]
  · rw [preferred, firstOfRank_of_nothing nothing (by decide), firstOfRank_of_nothing nothing (by decide)]
    apply List.foldlRecOn (motive := fun slot => slot = none) l (fill rank value) rfl
    intro slot empty a member
    rw [fill, empty]
    cases ranked : rank a with
    | first => exact nothing a member (by rw [ranked]; decide)
    | second => exact nothing a member (by rw [ranked]; decide)
    | neither => rfl
  · obtain ⟨first, filled⟩ := firstOfRank_of_all ranks someFirst all
    rw [filled, preferred, first]
    rfl

/-- In any order the same value has precedence. -/
theorem preferred_of_agree (ranks : ∀ a b, key a = key b → rank a = rank b)
    (rearranged : Rearranged key l l') (agree : Agree key rank value l) :
    preferred rank value l' = preferred rank value l := by
  have agree' := rearranged.agree agree
  rcases agree with ⟨noFirst, same⟩ | ⟨-, nothing⟩ | ⟨someFirst, x, all⟩
  · have noFirst' : ∀ a ∈ l', rank a ≠ .first := fun a member => noFirst a (rearranged.1.mem_iff.mpr member)
    rw [preferred, preferred, firstOfRank_first_of_absent noFirst, firstOfRank_first_of_absent noFirst',
      firstOfRank_rearranged ranks rearranged same]
  · have nothing' : ∀ a ∈ l', rank a ≠ .neither → value a = none :=
      fun a member => nothing a (rearranged.1.mem_iff.mpr member)
    unfold preferred
    rw [firstOfRank_of_nothing nothing (by decide), firstOfRank_of_nothing nothing (by decide),
      firstOfRank_of_nothing nothing' (by decide), firstOfRank_of_nothing nothing' (by decide)]
  · have first := (firstOfRank_of_all ranks someFirst all).1
    have first' := firstOfRank_rearranged ranks rearranged (r := .first) fun a member b member' ranked ranked' y z
        isFirst isFirst' => by
      rw [(all a member ranked).1] at isFirst
      rw [(all b member' ranked').1] at isFirst'
      exact (Option.some.inj isFirst).symm.trans (Option.some.inj isFirst')
    rw [preferred, preferred, first', first]
    rfl

/-- With the elements of one key in front, the first value of their rank is theirs. -/
theorem firstOfRank_front (ranks : ∀ a b, key a = key b → rank a = rank b) {a : α} {x : β}
    (first : firstValue key value l (key a) = some x) :
    firstOfRank rank value (rank a) ((l.filter fun b => decide (key b = key a)) ++
      l.filter fun b => !decide (key b = key a)) = some x := by
  have all : (l.filter fun b => decide (key b = key a)).filter (fun b => decide (rank b = rank a)) =
      l.filter fun b => decide (key b = key a) := by
    rw [List.filter_eq_self]
    intro b listed
    exact decide_eq_true (ranks b a (of_decide_eq_true (List.mem_filter.mp listed).2))
  rw [firstOfRank_append, firstOfRank, all]
  have front : (l.filter fun b => decide (key b = key a)).findSome? value = some x := first
  rw [front]
  rfl

/-- With the elements of one key of the first rank at the end, the slot holds the value of the last. -/
theorem foldl_fill_back (ranks : ∀ a b, key a = key b → rank a = rank b) {a : α} (member : a ∈ l)
    (ranked : rank a = .first) :
    ((l.filter fun b => !decide (key b = key a)) ++
      l.filter fun b => !!decide (key b = key a)).foldl (fill rank value) none =
      lastValue key value l (key a) := by
  have keyed : (l.filter fun b => !!decide (key b = key a)) = ofKey key l (key a) := by
    unfold ofKey
    congr 1
    funext b
    exact Bool.not_not _
  have filled : ofKey key l (key a) ≠ [] :=
    List.ne_nil_of_mem (List.mem_filter.mpr ⟨member, decide_eq_true rfl⟩)
  obtain ⟨before, last, split⟩ : ∃ before last, ofKey key l (key a) = before ++ [last] :=
    ⟨_, _, (List.dropLast_append_getLast filled).symm⟩
  have listed : last ∈ ofKey key l (key a) := by
    rw [split]
    exact List.mem_append_right before List.mem_cons_self
  have isFirst : rank last = .first :=
    (ranks last a (of_decide_eq_true (List.mem_filter.mp listed).2)).trans ranked
  rw [keyed, split, ← List.append_assoc,
    foldl_fill_last isFirst fun b absent => absurd absent List.not_mem_nil, lastValue, split,
    List.getLast?_append]
  exact Option.or_none

/-- A key with a last value has a first. -/
theorem firstValue_of_lastValue {k : κ} {x : β} (last : lastValue key value l k = some x) :
    ∃ y, firstValue key value l k = some y := by
  cases first : firstValue key value l k with
  | some y => exact ⟨y, rfl⟩
  | none =>
    rw [firstValue, List.findSome?_eq_none_iff] at first
    obtain ⟨a, isLast, filled⟩ := Option.bind_eq_some_iff.mp last
    rw [first a (List.mem_of_getLast? isLast)] at filled
    cases filled

/-- Where the order does not matter, the value of the slot is read from an order that is chosen. -/
theorem OrderFree.agree (ranks : ∀ a b, key a = key b → rank a = rank b)
    (free : OrderFree key rank value l) : Agree key rank value l := by
  have kept := (free l (Rearranged.refl l)).2
  have moved (a : α) : Rearranged key l _ := rearranged_front (fun k => decide (k = key a)) l
  have back (a : α) (member : a ∈ l) (ranked : rank a = .first) :
      lastValue key value l (key a) = l.foldl (fill rank value) none := by
    rw [← foldl_fill_back ranks member ranked]
    exact (free _ (rearranged_front (fun k => !decide (k = key a)) l)).1
  by_cases someFirst : ∃ a ∈ l, rank a = .first
  · right
    cases slot : l.foldl (fill rank value) none with
    | none =>
      left
      refine ⟨someFirst, ?_⟩
      intro a member counts
      rw [slot, preferred] at kept
      obtain ⟨first, second⟩ := Option.or_eq_none_iff.mp kept.symm
      cases ranked : rank a with
      | first => exact firstOfRank_eq_none.mp first a member ranked
      | second => exact firstOfRank_eq_none.mp second a member ranked
      | neither => exact absurd ranked counts
    | some x =>
      right
      refine ⟨someFirst, x, ?_⟩
      intro a member ranked
      have last := (back a member ranked).trans slot
      obtain ⟨y, first⟩ := firstValue_of_lastValue last
      obtain ⟨same, preferredThere⟩ := free _ (moved a)
      have there := firstOfRank_front ranks first
      rw [ranked] at there
      rw [same, slot, preferred, there] at preferredThere
      exact ⟨first.trans preferredThere.symm, last⟩
  · left
    have noFirst : ∀ a ∈ l, rank a ≠ .first := fun a member ranked => someFirst ⟨a, member, ranked⟩
    refine ⟨noFirst, ?_⟩
    have slot (a : α) (ranked : rank a = .second) (x : β) (first : firstValue key value l (key a) = some x) :
        l.foldl (fill rank value) none = some x := by
      obtain ⟨same, preferredThere⟩ := free _ (moved a)
      have there := firstOfRank_front ranks first
      rw [ranked] at there
      have absent : firstOfRank rank value .first _ = none := firstOfRank_first_of_absent fun b member =>
        noFirst b ((moved a).1.mem_iff.mpr member)
      rw [← same, preferredThere, preferred, absent, there]
      rfl
    intro a _ b _ ranked ranked' x y first first'
    have both := (slot a ranked x first).symm.trans (slot b ranked' y first')
    exact Option.some.inj both

/-- The slot does not depend on the order, exactly if the keys agree. -/
theorem orderFree_iff (ranks : ∀ a b, key a = key b → rank a = rank b) (l : List α) :
    OrderFree key rank value l ↔ Agree key rank value l := by
  constructor
  · intro free
    exact free.agree ranks
  · intro agree l' rearranged
    have agree' := rearranged.agree agree
    rw [foldl_fill_of_agree ranks agree, foldl_fill_of_agree ranks agree']
    exact ⟨preferred_of_agree ranks rearranged agree, rfl⟩

end

end WkcBrowser.Lib
