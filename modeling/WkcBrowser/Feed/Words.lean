import WkcBrowser.Feed.DateTimeParsers

/-! The words that the parsers of single items read. -/

namespace WkcBrowser.Feed

open Lib Lib.Scan Wtf

/-! The rules that dates are made of. -/

def White (word : List Byte) : Prop := ∀ c ∈ word, isWhite c = true

def BWS (word : List Byte) : Prop := word ≠ [] ∧ White word

def Digits (m n : Nat) (word : List Byte) (value : Nat) : Prop :=
  (∀ c ∈ word, isASCIIDigit c = true) ∧ m ≤ word.length ∧ word.length ≤ n ∧ decimal word = value

/-- The letters of a name in any case. -/
def IsName (name word : List Byte) : Prop := word.map toASCIILower = name.map toASCIILower

section
variable {src rest : List Byte}

theorem octet_eq_some {ref : Byte} :
    parseRFC5234Octet ref src = (some (), rest) ↔ src = ref :: rest := by
  unfold parseRFC5234Octet
  cases src with
  | nil => simp
  | cons c src =>
    rw [List.head?_cons, List.tail_cons]
    by_cases same : c = ref
    · simp [same]
    · simp [same]

theorem octet_of_ne {ref c : Byte} (different : c ≠ ref) :
    parseRFC5234Octet ref (c :: src) = (none, c :: src) := by
  unfold parseRFC5234Octet
  rw [List.head?_cons, if_neg fun same => different (Option.some.inj same)]

theorem reads_octet {ref : Byte} : (parseRFC5234Octet ref).Reads fun word _ => word = [ref] :=
  fun _ _ _ found => ⟨[ref], octet_eq_some.mp found, rfl⟩

theorem restores_octet {ref : Byte} : (parseRFC5234Octet ref).Restores := by
  intro text rest absent
  unfold parseRFC5234Octet at absent
  split_ifs at absent
  · cases absent
  · exact (Prod.mk.inj absent).2.symm

theorem octetsNocase_eq_some {ref : List Byte} :
    octetsNocase ref src = some rest ↔ ∃ word, src = word ++ rest ∧ IsName ref word := by
  induction ref generalizing src with
  | nil =>
    constructor
    · intro same
      exact ⟨[], Option.some.inj same, rfl⟩
    · rintro ⟨word, rfl, named⟩
      rw [List.map_eq_nil_iff.mp named]
      rfl
  | cons r ref ih =>
    cases src with
    | nil =>
      constructor
      · intro absent
        cases absent
      · rintro ⟨word, split, named⟩
        obtain ⟨rfl, -⟩ := List.append_eq_nil_iff.mp split.symm
        cases named
    | cons c src =>
      rw [octetsNocase]
      constructor
      · intro found
        split_ifs at found with same
        obtain ⟨word, rfl, named⟩ := ih.mp found
        exact ⟨c :: word, rfl, congrArg₂ List.cons same named⟩
      · rintro ⟨word, split, named⟩
        cases word with
        | nil => cases named
        | cons d word =>
          obtain ⟨rfl, rfl⟩ := List.cons.inj split
          obtain ⟨same, named⟩ := List.cons.inj named
          rw [if_pos same]
          exact ih.mpr ⟨word, rfl, named⟩

theorem nocase_eq_some {ref : List Byte} {u : Unit} :
    parseRFC5234OctetsNocase ref src = (some u, rest) ↔ ∃ word, src = word ++ rest ∧ IsName ref word := by
  rw [← octetsNocase_eq_some]
  unfold parseRFC5234OctetsNocase
  cases octetsNocase ref src with
  | none => simp
  | some s => simp

theorem reads_nocase {ref : List Byte} :
    (parseRFC5234OctetsNocase ref).Reads fun word _ => IsName ref word :=
  fun _ _ _ found => nocase_eq_some.mp found

theorem restores_nocase {ref : List Byte} : (parseRFC5234OctetsNocase ref).Restores := by
  intro text rest absent
  unfold parseRFC5234OctetsNocase at absent
  cases found : octetsNocase ref text with
  | none =>
    rw [found] at absent
    exact (Prod.mk.inj absent).2.symm
  | some s =>
    rw [found] at absent
    cases absent

/-- The digits that are taken, at most `n`. -/
theorem reads_digits {m n : Nat} : (parseRFC5234Digits m n).Reads (Digits m n) := by
  intro text value rest found
  unfold parseRFC5234Digits at found
  dsimp only at found
  by_cases enough : m ≤ ((text.take n).takeWhile isASCIIDigit).length
  · rw [if_pos enough] at found
    obtain ⟨read, rfl⟩ := Prod.mk.inj found
    have front : (text.take n).takeWhile isASCIIDigit <+: text :=
      (List.takeWhile_prefix _).trans (List.take_prefix n text)
    have short := (List.takeWhile_prefix isASCIIDigit (l := text.take n)).length_le
    rw [List.length_take] at short
    exact ⟨_, (List.prefix_iff_eq_append.mp front).symm, fun c member => List.mem_takeWhile_imp member,
      enough, by omega, Option.some.inj read⟩
  · rw [if_neg enough] at found
    cases found

/-- Digits are read when no further digit could be. -/
theorem digits_append {m n value : Nat} {word : List Byte} (digits : Digits m n word value)
    (ended : word.length = n ∨ ∀ c ∈ rest.head?, isASCIIDigit c = false) :
    parseRFC5234Digits m n (word ++ rest) = (some value, rest) := by
  obtain ⟨all, enough, short, rfl⟩ := digits
  have taken : ((word ++ rest).take n).takeWhile isASCIIDigit = word := by
    rw [List.take_append, List.take_of_length_le short, List.takeWhile_append_of_pos all]
    rcases ended with full | behind
    · rw [full, Nat.sub_self, List.take_zero, List.takeWhile_nil, List.append_nil]
    · cases rest with
      | nil => rw [List.take_nil, List.takeWhile_nil, List.append_nil]
      | cons c rest =>
        have notDigit := behind c rfl
        cases n - word.length with
        | zero => rw [List.take_zero, List.takeWhile_nil, List.append_nil]
        | succ k =>
          rw [List.take_succ_cons, List.takeWhile_cons_of_neg (by rw [notDigit]; exact Bool.false_ne_true),
            List.append_nil]
  unfold parseRFC5234Digits
  dsimp only
  rw [taken, if_pos enough, List.drop_left]

theorem reads_digit : parseRFC5234Digit.Reads fun _ _ => True := by
  intro text value rest found
  cases text with
  | nil => cases found
  | cons c text =>
    unfold parseRFC5234Digit at found
    dsimp only at found
    by_cases digit : isASCIIDigit c = true
    · rw [if_pos digit] at found
      obtain ⟨-, rfl⟩ := Prod.mk.inj found
      exact ⟨[c], rfl, trivial⟩
    · rw [if_neg digit] at found
      cases found

theorem reads_parseDigits : parseDigits.Reads fun word digits =>
    word = digits ∧ ∀ c ∈ word, isASCIIDigit c = true := by
  intro text digits rest found
  obtain ⟨same, rfl⟩ := Prod.mk.inj found
  obtain rfl := Option.some.inj same
  exact ⟨_, List.takeWhile_append_dropWhile.symm, rfl, fun c member => List.mem_takeWhile_imp member⟩

theorem reads_bws : parseBWS.Reads fun word _ => BWS word := by
  intro text u rest found
  unfold parseBWS at found
  by_cases white : text.head?.any isWhite = true
  · rw [if_pos white] at found
    obtain ⟨-, rfl⟩ := Prod.mk.inj found
    refine ⟨text.takeWhile isWhite, List.takeWhile_append_dropWhile.symm, ?_,
      fun c member => List.mem_takeWhile_imp member⟩
    cases text with
    | nil => cases white
    | cons c text =>
      have first : isWhite c = true := white
      rw [List.takeWhile_cons_of_pos first]
      exact List.cons_ne_nil _ _
  · rw [if_neg white] at found
    cases found

theorem skipBWS_eq (src : List Byte) : skipBWS src = (some (), src.dropWhile isWhite) := by
  have dropped : (parseBWS src).2 = src.dropWhile isWhite := by
    unfold parseBWS
    split_ifs with white
    · rfl
    · cases src with
      | nil => rfl
      | cons c src =>
        have first : ¬isWhite c = true := white
        rw [List.dropWhile_cons_of_neg first]
  have skipped : optional parseBWS src = (some (parseBWS src).1, src.dropWhile isWhite) := by
    rw [← dropped]
    rfl
  exact bind_of_some skipped

theorem reads_skipBWS : skipBWS.Reads fun word _ => White word := by
  intro text u rest found
  rw [skipBWS_eq] at found
  obtain ⟨-, rfl⟩ := Prod.mk.inj found
  exact ⟨_, List.takeWhile_append_dropWhile.symm, fun c member => List.mem_takeWhile_imp member⟩

/-- White space in front of something else is skipped. -/
theorem dropWhile_white {word : List Byte} (white : White word) (rest : List Byte) :
    (word ++ rest).dropWhile isWhite = rest.dropWhile isWhite := by
  induction word with
  | nil => rfl
  | cons c word ih =>
    obtain ⟨here, behind⟩ := List.forall_mem_cons.mp white
    rw [List.cons_append, List.dropWhile_cons_of_pos here, ih behind]

theorem bws_append {word : List Byte} (bws : BWS word) (rest : List Byte) :
    parseBWS (word ++ rest) = (some (), rest.dropWhile isWhite) := by
  obtain ⟨filled, white⟩ := bws
  have first : (word ++ rest).head?.any isWhite = true := by
    cases word with
    | nil => exact absurd rfl filled
    | cons c word => exact white c List.mem_cons_self
  rw [parseBWS, if_pos first, dropWhile_white white]

end

/-! Tables of names. -/

section
variable {α β : Type} {table : List (String × α)} {f : α → β} {word rest : List Byte}

theorem restores_name {name : String} {b : β} :
    (do parseRFC5234OctetsNocase (ascii name); pure b : Scan Byte β).Restores :=
  restores_nocase.bind_pure fun _ => b

theorem reads_names (table : List (String × α)) (f : α → β) :
    (firstOf (table.map fun (name, a) => do
      parseRFC5234OctetsNocase (ascii name)
      pure (f a))).Reads fun word b => ∃ entry ∈ table, IsName (ascii entry.1) word ∧ b = f entry.2 := by
  refine reads_firstOf fun p listed => ?_
  obtain ⟨entry, inTable, rfl⟩ := List.mem_map.mp listed
  refine ⟨fun text b rest found => ?_, restores_name⟩
  obtain ⟨u, middle, named, found⟩ := bind_eq_some.mp found
  obtain ⟨rfl, rfl⟩ := pure_eq_some.mp found
  obtain ⟨word, split, isName⟩ := reads_nocase named
  exact ⟨word, split, entry, inTable, isName, rfl⟩

theorem names_append {entry : String × α} (inTable : entry ∈ table) (isName : IsName (ascii entry.1) word)
    (rest : List Byte) : ∃ b rest', firstOf (table.map fun (name, a) => do
      parseRFC5234OctetsNocase (ascii name)
      pure (f a)) (word ++ rest) = (some b, rest') := by
  have named : parseRFC5234OctetsNocase (ascii entry.1) (word ++ rest) = (some (), rest) :=
    nocase_eq_some.mpr ⟨word, rfl, isName⟩
  refine firstOf_of_mem ?_ (List.mem_map_of_mem inTable) (bind_of_some named)
  intro p listed
  obtain ⟨entry, -, rfl⟩ := List.mem_map.mp listed
  exact restores_name

/-- In a table of different names of one length the name that stands there is found. -/
theorem names_append_exact {length : Nat} (long : ∀ entry ∈ table, (ascii entry.1).length = length)
    (different : ∀ entry ∈ table, ∀ other ∈ table, IsName (ascii entry.1) (ascii other.1) → entry = other)
    {entry : String × α} (inTable : entry ∈ table) (isName : IsName (ascii entry.1) word) (rest : List Byte) :
    firstOf (table.map fun (name, a) => do
      parseRFC5234OctetsNocase (ascii name)
      pure (f a)) (word ++ rest) = (some (f entry.2), rest) := by
  obtain ⟨b, rest', found⟩ := names_append inTable isName (f := f) rest
  obtain ⟨word', split, other, inTable', isName', rfl⟩ := reads_names table f found
  have length : word.length = length := by
    rw [← long entry inTable, ← List.length_map toASCIILower, isName, List.length_map]
  have length' : word'.length = word.length := by
    rw [length, ← long other inTable', ← List.length_map toASCIILower, isName', List.length_map]
  obtain ⟨rfl, rfl⟩ := List.append_inj split length'.symm
  have same : entry = other := different entry inTable other inTable' (isName'.symm.trans isName)
  rw [found, same]

end

end WkcBrowser.Feed
