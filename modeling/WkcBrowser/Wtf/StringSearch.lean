import Mathlib.Data.BitVec
import Mathlib.Tactic.Abel
import WkcBrowser.Wtf.StringImpl

/-! `StringImpl::find` and `reverseFind` of a string in another. Texts are compared only where the sums
of their characters agree, and the sum of the next part follows from the last one. -/

namespace WkcBrowser.Wtf.StringImpl

/-- What a character adds to a sum. -/
def hash (caseSensitive : Bool) (c : UChar) : BitVec 32 :=
  BitVec.ofNat 32 (if caseSensitive then c else toASCIILower c).toNat

/-- The loops that sum up a text. -/
def sum (caseSensitive : Bool) (text : Text) : BitVec 32 :=
  text.foldl (fun h c => h + hash caseSensitive c) 0

def part (text : Text) (i length : Nat) : Text := (text.drop i).take length

section
variable (equalIgnoringCase : Text → Text → Bool) (caseSensitive : Bool)

/-- `memcmp` or `equalIgnoringCase`, which `umemcasecmp` answers. -/
def equal (a b : Text) : Bool := if caseSensitive then a = b else equalIgnoringCase a b

/-- The test of both loops. -/
def hit (uthis ustr : Text) (i : Nat) (hthis : BitVec 32) : Bool :=
  hthis = sum caseSensitive ustr && equal equalIgnoringCase caseSensitive (part uthis i ustr.length) ustr

/-- The loop of `find`, with the number of turns that are left. -/
def forward (uthis ustr : Text) : Nat → Nat → BitVec 32 → Option Nat
  | 0, i, hthis => if hit equalIgnoringCase caseSensitive uthis ustr i hthis then some i else none
  | left + 1, i, hthis =>
    if hit equalIgnoringCase caseSensitive uthis ustr i hthis then some i
    else
      forward uthis ustr left (i + 1)
        (hthis + hash caseSensitive (uthis.getD (i + ustr.length) 0) - hash caseSensitive (uthis.getD i 0))

/-- The loop of `reverseFind`. -/
def backward (uthis ustr : Text) : Nat → BitVec 32 → Option Nat
  | 0, hthis => if hit equalIgnoringCase caseSensitive uthis ustr 0 hthis then some 0 else none
  | i + 1, hthis =>
    if hit equalIgnoringCase caseSensitive uthis ustr (i + 1) hthis then some (i + 1)
    else
      backward uthis ustr i
        (hthis - hash caseSensitive (uthis.getD (i + ustr.length) 0) + hash caseSensitive (uthis.getD i 0))

/-- A negative index counts from the end. -/
def start (this : Text) (index : Int) : Int := if index < 0 then index + this.length else index

def find (this str : Text) (index : Int) : Option Nat :=
  let index := start this index
  let lthis : Int := this.length - index
  -- `lthis` is compared as an unsigned number
  if lthis < 0 ∨ this.length < lthis then none
  else
    let delta := lthis - str.length
    if delta < 0 then none
    else
      let uthis := this.drop index.toNat
      (forward equalIgnoringCase caseSensitive uthis str delta.toNat 0
        (sum caseSensitive (part uthis 0 str.length))).map (index.toNat + ·)

def reverseFind (this str : Text) (index : Int) : Option Nat :=
  let index := start this index
  let delta : Int := this.length - str.length
  if index < 0 ∨ index > this.length ∨ delta < 0 then none
  else
    let index := (min index delta).toNat
    backward equalIgnoringCase caseSensitive this str index (sum caseSensitive (part this index str.length))

/-! What the searches are for. -/

/-- The string stands at an index. -/
def Occurs (this str : Text) (i : Nat) : Prop :=
  i + str.length ≤ this.length ∧ equal equalIgnoringCase caseSensitive (part this i str.length) str = true

/-- The index is before all others of its kind, or there is none of it. -/
def Finds (before : Nat → Nat → Prop) (at_ : Nat → Prop) : Option Nat → Prop
  | some i => at_ i ∧ ∀ j, at_ j → before i j
  | none => ∀ i, ¬at_ i

end

section
variable {equalIgnoringCase : Text → Text → Bool} {caseSensitive : Bool} {uthis ustr : Text}

theorem foldl_eq (h : BitVec 32) (text : Text) :
    text.foldl (fun h c => h + hash caseSensitive c) h = h + sum caseSensitive text := by
  unfold sum
  induction text generalizing h with
  | nil => exact (add_zero h).symm
  | cons c text ih =>
    rw [List.foldl_cons, List.foldl_cons, ih, ih (0 + _)]
    abel

theorem sum_append (text text' : Text) :
    sum caseSensitive (text ++ text') = sum caseSensitive text + sum caseSensitive text' := by
  rw [sum, List.foldl_append, foldl_eq]
  rfl

theorem sum_cons (c : UChar) (text : Text) :
    sum caseSensitive (c :: text) = hash caseSensitive c + sum caseSensitive text := by
  rw [sum, List.foldl_cons, foldl_eq, zero_add]

/-- The sum of the next part. -/
theorem sum_part_succ {i n : Nat} (inside : i + n < uthis.length) :
    sum caseSensitive (part uthis i n) + hash caseSensitive (uthis.getD (i + n) 0) =
      hash caseSensitive (uthis.getD i 0) + sum caseSensitive (part uthis (i + 1) n) := by
  have here : i < uthis.length := by omega
  have both : part uthis i n ++ [uthis[i + n]] = uthis[i] :: part uthis (i + 1) n := by
    unfold part
    rw [← List.take_succ_cons, ← List.drop_eq_getElem_cons here]
    have next := List.take_append_getElem (l := uthis.drop i) (i := n) (by rw [List.length_drop]; omega)
    rw [List.getElem_drop] at next
    exact next
  have sums := congrArg (sum caseSensitive) both
  rw [sum_append, sum_cons, sum_cons] at sums
  rw [List.getD_eq_getElem?_getD, List.getD_eq_getElem?_getD, List.getElem?_eq_getElem inside,
    List.getElem?_eq_getElem here, Option.getD_some, Option.getD_some, ← sums]
  exact congrArg _ (add_zero _).symm

/-- The string stands at an index, and the sums agree. -/
def Hits (equalIgnoringCase : Text → Text → Bool) (caseSensitive : Bool) (uthis ustr : Text) (i : Nat) : Prop :=
  i + ustr.length ≤ uthis.length ∧
    hit equalIgnoringCase caseSensitive uthis ustr i (sum caseSensitive (part uthis i ustr.length)) = true

theorem forward_first {left i : Nat} (range : i + left + ustr.length = uthis.length) :
    Finds (· ≤ ·) (fun k => i ≤ k ∧ Hits equalIgnoringCase caseSensitive uthis ustr k)
      (forward equalIgnoringCase caseSensitive uthis ustr left i
        (sum caseSensitive (part uthis i ustr.length))) := by
  induction left generalizing i with
  | zero =>
    unfold forward
    split_ifs with found
    · exact ⟨⟨le_refl i, by omega, found⟩, fun j later => later.1⟩
    · rintro j ⟨later, inside, hits⟩
      have same : j = i := by omega
      rw [same] at hits
      exact found hits
  | succ left ih =>
    unfold forward
    split_ifs with found
    · exact ⟨⟨le_refl i, by omega, found⟩, fun j later => later.1⟩
    · have moved : sum caseSensitive (part uthis i ustr.length) +
          hash caseSensitive (uthis.getD (i + ustr.length) 0) - hash caseSensitive (uthis.getD i 0) =
            sum caseSensitive (part uthis (i + 1) ustr.length) := by
        rw [sum_part_succ (by omega)]
        abel
      have further (j : Nat) : i ≤ j ∧ Hits equalIgnoringCase caseSensitive uthis ustr j ↔
          i + 1 ≤ j ∧ Hits equalIgnoringCase caseSensitive uthis ustr j := by
        refine and_congr_left fun hits => ⟨fun later => Nat.lt_of_le_of_ne later ?_, Nat.le_of_succ_le⟩
        rintro rfl
        exact found hits.2
      simp only [moved, further]
      exact ih (by omega)

theorem backward_last {i : Nat} (range : i + ustr.length ≤ uthis.length) :
    Finds (· ≥ ·) (fun k => k ≤ i ∧ Hits equalIgnoringCase caseSensitive uthis ustr k)
      (backward equalIgnoringCase caseSensitive uthis ustr i
        (sum caseSensitive (part uthis i ustr.length))) := by
  induction i with
  | zero =>
    unfold backward
    split_ifs with found
    · exact ⟨⟨le_refl 0, range, found⟩, fun j earlier => earlier.1⟩
    · rintro j ⟨earlier, -, hits⟩
      rw [Nat.le_zero.mp earlier] at hits
      exact found hits
  | succ i ih =>
    unfold backward
    split_ifs with found
    · exact ⟨⟨le_refl _, range, found⟩, fun j earlier => earlier.1⟩
    · have moved : sum caseSensitive (part uthis (i + 1) ustr.length) -
          hash caseSensitive (uthis.getD (i + ustr.length) 0) + hash caseSensitive (uthis.getD i 0) =
            sum caseSensitive (part uthis i ustr.length) := by
        have next := @sum_part_succ caseSensitive uthis i ustr.length (by omega)
        rw [← add_sub_cancel_right (sum caseSensitive (part uthis i ustr.length)), next]
        abel
      have further (j : Nat) : j ≤ i + 1 ∧ Hits equalIgnoringCase caseSensitive uthis ustr j ↔
          j ≤ i ∧ Hits equalIgnoringCase caseSensitive uthis ustr j := by
        refine and_congr_left fun hits =>
          ⟨fun earlier => Nat.le_of_lt_succ (Nat.lt_of_le_of_ne earlier ?_), Nat.le_succ_of_le⟩
        rintro rfl
        exact found hits.2
      simp only [moved, further]
      exact ih (by omega)

/-- The filter lets every occurrence through. -/
def Filtered (equalIgnoringCase : Text → Text → Bool) : Prop :=
  ∀ a b : Text, a.length = b.length → equalIgnoringCase a b = true → sum false a = sum false b

theorem hits_iff (filtered : caseSensitive = true ∨ Filtered equalIgnoringCase) (i : Nat) :
    Hits equalIgnoringCase caseSensitive uthis ustr i ↔
      Occurs equalIgnoringCase caseSensitive uthis ustr i := by
  refine and_congr_right fun inside => ?_
  unfold hit
  rw [Bool.and_eq_true, decide_eq_true_eq]
  refine and_iff_right_of_imp fun same => ?_
  unfold equal at same
  obtain sensitive | filtered := filtered
  · rw [sensitive, if_pos rfl, decide_eq_true_eq] at same
    rw [same]
  · split_ifs at same with sensitive
    · rw [of_decide_eq_true same]
    · rw [(Bool.not_eq_true _).mp sensitive]
      refine filtered _ _ ?_ same
      rw [part, List.length_take, List.length_drop]
      omega

/-- The indexes at or after the given one. -/
def Behind (this : Text) (index : Int) (i : Nat) : Prop := 0 ≤ start this index ∧ start this index ≤ i

/-- The indexes at or before the given one, which must not be behind the end of the string. -/
def InFront (this : Text) (index : Int) (i : Nat) : Prop :=
  start this index ≤ this.length ∧ i ≤ start this index

theorem find_first (filtered : caseSensitive = true ∨ Filtered equalIgnoringCase) (this str : Text)
    (index : Int) :
    Finds (· ≤ ·) (fun i => Behind this index i ∧ Occurs equalIgnoringCase caseSensitive this str i)
      (find equalIgnoringCase caseSensitive this str index) := by
  unfold find Behind
  dsimp only
  split_ifs with outside short
  · rintro i ⟨later, inside, -⟩
    omega
  · rintro i ⟨later, inside, -⟩
    omega
  · generalize at_ : (start this index).toNat = a
    have first := @forward_first equalIgnoringCase caseSensitive (this.drop a) str
      (this.length - start this index - str.length : Int).toNat 0 (by rw [List.length_drop]; omega)
    simp only [hits_iff filtered, Occurs, part, List.drop_drop, List.length_drop] at first ⊢
    revert first
    cases forward equalIgnoringCase caseSensitive (this.drop a) str _ 0 _ with
    | none =>
      rintro nowhere i ⟨⟨_, later⟩, inside, same⟩
      refine nowhere (i - a) ⟨Nat.zero_le _, by omega, ?_⟩
      rwa [Nat.add_sub_cancel' (by omega)]
    | some j =>
      rintro ⟨⟨-, inside, same⟩, least⟩
      change Finds _ _ (some (a + j))
      refine ⟨⟨⟨by omega, by omega⟩, by omega, same⟩, ?_⟩
      rintro i ⟨⟨_, later⟩, inside', same'⟩
      have before := least (i - a) ⟨Nat.zero_le _, by omega, by rwa [Nat.add_sub_cancel' (by omega)]⟩
      omega

theorem reverseFind_last (filtered : caseSensitive = true ∨ Filtered equalIgnoringCase) (this str : Text)
    (index : Int) :
    Finds (· ≥ ·) (fun i => InFront this index i ∧ Occurs equalIgnoringCase caseSensitive this str i)
      (reverseFind equalIgnoringCase caseSensitive this str index) := by
  unfold reverseFind InFront
  dsimp only
  split_ifs with outside
  · rintro i ⟨earlier, inside, -⟩
    omega
  · have last := @backward_last equalIgnoringCase caseSensitive this str
      (min (start this index) (this.length - str.length)).toNat (by omega)
    have same (i : Nat) : i ≤ (min (start this index) (this.length - str.length)).toNat ∧
        Hits equalIgnoringCase caseSensitive this str i ↔
          (start this index ≤ this.length ∧ i ≤ start this index) ∧
            Occurs equalIgnoringCase caseSensitive this str i := by
      rw [hits_iff filtered]
      refine and_congr_left fun occurs => ?_
      have inside := occurs.1
      omega
    simpa only [same] using last

/-- The searches find the first and the last occurrence exactly when no texts are the same but for case
while the sums of their characters, in lower case where these are ASCII, are different. -/
theorem finds_iff (equalIgnoringCase : Text → Text → Bool) :
    (∀ caseSensitive this str index,
      Finds (· ≤ ·) (fun i => Behind this index i ∧ Occurs equalIgnoringCase caseSensitive this str i)
          (find equalIgnoringCase caseSensitive this str index) ∧
        Finds (· ≥ ·) (fun i => InFront this index i ∧ Occurs equalIgnoringCase caseSensitive this str i)
          (reverseFind equalIgnoringCase caseSensitive this str index)) ↔
      Filtered equalIgnoringCase := by
  constructor
  · intro finds a b length same
    have whole : part a 0 b.length = a := List.take_of_length_le (Nat.le_of_eq length)
    have there : Occurs equalIgnoringCase false a b 0 := by
      refine ⟨by omega, ?_⟩
      rw [whole]
      exact same
    have last := (finds false a b 0).2
    have zero : (min 0 ((a.length : Int) - b.length)).toNat = 0 := by omega
    have first : start a 0 = 0 := if_neg (lt_irrefl _)
    unfold reverseFind InFront at last
    dsimp only at last
    rw [first, if_neg (by omega), zero, backward, whole] at last
    split_ifs at last with found
    · exact of_decide_eq_true (Bool.and_eq_true_iff.mp found).1
    · exact absurd ⟨⟨Int.natCast_nonneg _, le_refl 0⟩, there⟩ (last 0)
  · intro filtered caseSensitive this str index
    exact ⟨find_first (.inr filtered) this str index, reverseFind_last (.inr filtered) this str index⟩

/-- Letters beyond ASCII are not found in the other case. -/
example : find (fun _ _ => true) false [0xc0] [0xe0] 0 = none := by decide

end

theorem find_eq_findIdx (pattern text : Text) :
    Wtf.find pattern text = text.tails.findIdx? (pattern.isPrefixOf ·) := by
  induction text with
  | nil => rw [Wtf.find, List.tails, List.findIdx?_singleton]
  | cons c rest ih => rw [Wtf.find, List.tails, List.findIdx?_cons, ih]

theorem eq_find_of_finds {at_ : Nat → Prop} {pattern text : Text} {result : Option Nat}
    (same : ∀ i, at_ i ↔ i + pattern.length ≤ text.length ∧ part text i pattern.length = pattern)
    (first : Finds (· ≤ ·) at_ result) : result = Wtf.find pattern text := by
  have prefixed (i : Nat) (inside : i ≤ text.length) : at_ i ↔ pattern.isPrefixOf (text.drop i) = true := by
    rw [same, List.isPrefixOf_iff_prefix, List.prefix_iff_eq_take, part, eq_comm]
    refine and_iff_right_of_imp fun start => ?_
    have length := congrArg List.length start
    rw [List.length_take, List.length_drop] at length
    omega
  rw [find_eq_findIdx]
  symm
  cases result with
  | none =>
    refine List.findIdx?_eq_none_iff.mpr fun rest member => Bool.eq_false_iff.mpr fun there => ?_
    obtain ⟨i, inside, rfl⟩ := List.mem_iff_getElem.mp member
    rw [List.length_tails] at inside
    rw [List.getElem_tails] at there
    exact first i ((prefixed i (by omega)).mpr there)
  | some i =>
    have inside := ((same i).mp first.1).1
    refine List.findIdx?_eq_some_iff_getElem.mpr ⟨by rw [List.length_tails]; omega, ?_, fun j lt there => ?_⟩
    · rw [List.getElem_tails]
      exact (prefixed i (by omega)).mp first.1
    · rw [List.getElem_tails] at there
      exact absurd (first.2 j ((prefixed j (by omega)).mpr there)) (Nat.not_le_of_lt lt)

/-- From index 0 the loops find what the parsers look for. -/
theorem find_agrees (caseSensitive : Bool) (this str : Text) :
    find Wtf.equalIgnoringCase caseSensitive this str 0 =
      if caseSensitive then Wtf.find str this else findIgnoringCase str this := by
  have filtered : Filtered Wtf.equalIgnoringCase := by
    intro a b _ same
    have lowered (text : Text) : sum false text = sum true (text.map toASCIILower) := by
      simp [sum, List.foldl_map, hash]
    rw [lowered, lowered, of_decide_eq_true same]
  have first := @find_first Wtf.equalIgnoringCase caseSensitive (.inr filtered) this str 0
  cases caseSensitive with
  | true => exact eq_find_of_finds (fun i => by simp [Behind, start, Occurs, equal]) first
  | false =>
    refine eq_find_of_finds (fun i => ?_) first
    simp [Behind, start, Occurs, equal, Wtf.equalIgnoringCase, part, List.map_drop]

end WkcBrowser.Wtf.StringImpl
