import WkcBrowser.Wtf.StringImpl
import Mathlib.Tactic.Ring

/-! The case mappings of `UnicodeWKC.cpp` and their callers in `StringImpl`. What a character maps to is
the platform's to say. A mapping fills the buffer of its caller, counts what does not fit, and is called
again with a buffer of the length it returned. -/

namespace WkcBrowser.Wtf

abbrev UChar32 := UInt32

namespace Unicode

/-- The variables of the loops, with the writes so far. -/
structure Progress where
  len : Nat
  resultLength : Int
  error : Bool
  writes : List (Nat × UChar)

/-- One mapped character. Without a `result` pointer nothing is written. -/
def Progress.put (result : Bool) (s : Progress) (ch : UChar32) : Progress :=
  if result ∧ 0 ≤ s.resultLength then
    { s with
      writes := s.writes ++ [(s.len, ch.toUInt16)]
      resultLength := s.resultLength - 1
      len := s.len + 1 }
  else { s with error := true, len := s.len + 1 }

/-- What a call returns, its error flag, and what it wrote at which index of the result. -/
structure Mapped where
  length : Nat
  error : Bool
  writes : List (Nat × UChar)

def foldCase (foldCaseFull : UChar → List UChar32) (result : Bool) (resultLength : Int) (src : Text) :
    Mapped :=
  let s := src.foldl (fun s c => (foldCaseFull c).foldl (Progress.put result) s)
    ⟨0, resultLength, false, []⟩
  ⟨s.len, s.error, s.writes⟩

/-- `toLower` and `toUpper` differ in the platform's function. -/
def mapEach (peer : UChar → UChar32) (result : Bool) (resultLength : Int) (src : Text) : Mapped :=
  let s := src.foldl (fun s c => Progress.put result s (peer c)) ⟨0, resultLength, false, []⟩
  ⟨src.length, s.error, s.writes⟩

def toLower (toLowerPeer : UChar → UChar32) : Bool → Int → Text → Mapped :=
  mapEach toLowerPeer

def toUpper (toUpperPeer : UChar → UChar32) : Bool → Int → Text → Mapped :=
  mapEach toUpperPeer

/-- What a caller relies on: nothing is written behind the buffer, the flag tells whether the text was
too long for it, and the length is the one that the whole text takes. -/
structure Mapped.Respects (mapped : Mapped) (resultLength full : Nat) : Prop where
  within : ∀ write ∈ mapped.writes, write.1 < resultLength
  flag : mapped.error = true ↔ resultLength < full
  whole : mapped.length = full

/-- Characters written one behind the other. -/
def placed : Nat → List UChar32 → List (Nat × UChar)
  | _, [] => []
  | k, ch :: chars => (k, ch.toUInt16) :: placed (k + 1) chars

theorem mem_placed {k : Nat} {chars : List UChar32} {write : Nat × UChar}
    (member : write ∈ placed k chars) : write.1 < k + chars.length := by
  induction chars generalizing k with
  | nil => cases member
  | cons ch chars ih =>
    rw [List.length_cons]
    rcases List.mem_cons.mp member with same | later
    · rw [same]
      dsimp only
      omega
    · have := ih later
      omega

/-- The last character is written where it stands. -/
theorem last_mem_placed (k : Nat) (chars : List UChar32) (ch : UChar32) :
    (k + chars.length, ch.toUInt16) ∈ placed k (chars ++ [ch]) := by
  induction chars generalizing k with
  | nil => exact List.mem_cons_self
  | cons first chars ih =>
    have later := ih (k + 1)
    rw [Nat.add_assoc, Nat.add_comm 1] at later
    exact List.mem_cons_of_mem _ later

/-- While the counter is not negative a character is written, so there is room for one more than
`resultLength`. -/
theorem foldl_put (s : Progress) (low : -1 ≤ s.resultLength) (chars : List UChar32) :
    let s' := chars.foldl (Progress.put true) s
    s'.len = s.len + chars.length ∧
      s'.writes = s.writes ++ placed s.len (chars.take (s.resultLength + 1).toNat) ∧
      (s'.error = true ↔ s.error = true ∨ s.resultLength + 1 < chars.length) := by
  induction chars generalizing s with
  | nil =>
    have beyond : ¬s.resultLength + 1 < (0 : Int) := by omega
    simp [placed, beyond]
  | cons ch chars ih =>
    rw [List.foldl_cons]
    by_cases room : 0 ≤ s.resultLength
    · have written : s.put true ch = { s with
          writes := s.writes ++ [(s.len, ch.toUInt16)]
          resultLength := s.resultLength - 1
          len := s.len + 1 } := if_pos ⟨rfl, room⟩
      rw [written]
      obtain ⟨length, writes, error⟩ := ih { s with
          writes := s.writes ++ [(s.len, ch.toUInt16)]
          resultLength := s.resultLength - 1
          len := s.len + 1 } (by dsimp only; omega)
      have next : (s.resultLength + 1).toNat = (s.resultLength - 1 + 1).toNat + 1 := by omega
      refine ⟨?_, ?_, ?_⟩
      · rw [length, List.length_cons, Nat.add_right_comm, Nat.add_assoc]
      · rw [writes, next, List.take_succ_cons, placed, List.append_assoc]
        rfl
      · have same : s.resultLength - 1 + 1 < (chars.length : Int) ↔
            s.resultLength + 1 < ((ch :: chars).length : Int) := by
          rw [List.length_cons]
          omega
        exact error.trans (or_congr_right same)
    · have refused : s.put true ch = { s with error := true, len := s.len + 1 } :=
        if_neg fun both => room both.2
      rw [refused]
      obtain ⟨length, writes, error⟩ := ih { s with error := true, len := s.len + 1 } low
      have none_ : (s.resultLength + 1).toNat = 0 := by omega
      have many : s.resultLength + 1 < ((ch :: chars).length : Int) := by
        rw [List.length_cons]
        omega
      refine ⟨?_, ?_, ?_⟩
      · rw [length, List.length_cons, Nat.add_right_comm, Nat.add_assoc]
      · rw [writes]
        simp only [none_, List.take_zero, placed]
      · exact error.trans ⟨fun _ => .inr many, fun _ => .inl rfl⟩

/-- Without a buffer each character is an error. -/
theorem foldl_put_null (s : Progress) (chars : List UChar32) :
    let s' := chars.foldl (Progress.put false) s
    s'.len = s.len + chars.length ∧ s'.writes = s.writes ∧
      (s'.error = true ↔ s.error = true ∨ 0 < chars.length) := by
  induction chars generalizing s with
  | nil => simp
  | cons ch chars ih =>
    have refused : s.put false ch = { s with error := true, len := s.len + 1 } :=
      if_neg fun both => Bool.false_ne_true both.1
    rw [List.foldl_cons, refused]
    obtain ⟨length, writes, error⟩ := ih { s with error := true, len := s.len + 1 }
    refine ⟨?_, writes, ?_⟩
    · rw [length, List.length_cons, Nat.add_right_comm, Nat.add_assoc]
    · exact error.trans ⟨fun _ => .inr (Nat.succ_pos _), fun _ => .inl rfl⟩

/-- Both kinds of mapping write the characters that the whole text maps to. -/
def mapAll (result : Bool) (resultLength : Int) (chars : List UChar32) : Mapped :=
  let s := chars.foldl (Progress.put result) ⟨0, resultLength, false, []⟩
  ⟨s.len, s.error, s.writes⟩

theorem len_mapAll (result : Bool) (s : Progress) (chars : List UChar32) :
    (chars.foldl (Progress.put result) s).len = s.len + chars.length := by
  induction chars generalizing s with
  | nil => rfl
  | cons ch chars ih =>
    rw [List.foldl_cons, ih, List.length_cons]
    have one : (s.put result ch).len = s.len + 1 := by
      unfold Progress.put
      split <;> rfl
    omega

theorem foldCase_eq (foldCaseFull : UChar → List UChar32) (result : Bool) (resultLength : Int)
    (src : Text) :
    foldCase foldCaseFull result resultLength src =
      mapAll result resultLength (src.flatMap foldCaseFull) := by
  rw [foldCase, mapAll, List.foldl_flatMap]

theorem mapEach_eq (peer : UChar → UChar32) (result : Bool) (resultLength : Int) (src : Text) :
    mapEach peer result resultLength src = mapAll result resultLength (src.map peer) := by
  have length := len_mapAll result ⟨0, resultLength, false, []⟩ (src.map peer)
  rw [mapAll, length, List.length_map, Nat.zero_add, mapEach, List.foldl_map]

theorem mapAll_spec (resultLength : Nat) (chars : List UChar32) :
    (mapAll true resultLength chars).length = chars.length ∧
      (mapAll true resultLength chars).writes = placed 0 (chars.take (resultLength + 1)) ∧
      ((mapAll true resultLength chars).error = true ↔ resultLength + 1 < chars.length) := by
  obtain ⟨length, writes, error⟩ :=
    foldl_put ⟨0, resultLength, false, []⟩ (by dsimp only; omega) chars
  refine ⟨length.trans (Nat.zero_add _), writes, ?_⟩
  refine error.trans ((or_iff_right Bool.false_ne_true).trans ?_)
  dsimp only
  omega

/-- One character more than the buffer takes is written behind it. -/
theorem mapAll_respects_iff (resultLength : Nat) (chars : List UChar32) :
    (mapAll true resultLength chars).Respects resultLength chars.length ↔
      chars.length ≤ resultLength := by
  obtain ⟨length, writes, error⟩ := mapAll_spec resultLength chars
  constructor
  · intro respects
    by_contra long
    -- The character at index `resultLength` is the last one that is written.
    obtain ⟨front, ch, split⟩ : ∃ front ch, chars.take (resultLength + 1) = front ++ [ch] := by
      rcases List.eq_nil_or_concat (chars.take (resultLength + 1)) with nothing | ⟨front, ch, same⟩
      · have := congrArg List.length nothing
        rw [List.length_take, List.length_nil] at this
        omega
      · exact ⟨front, ch, same.trans List.concat_eq_append⟩
    have size := congrArg List.length split
    rw [List.length_take, List.length_append, List.length_singleton] at size
    have written := last_mem_placed 0 front ch
    rw [← split, ← writes] at written
    have inside := respects.within _ written
    dsimp only at inside
    omega
  · intro short
    refine ⟨?_, error.trans ⟨fun _ => by omega, fun _ => by omega⟩, length⟩
    intro write member
    rw [writes] at member
    have bound := mem_placed member
    rw [List.length_take] at bound
    omega

/-- Without a buffer the flag says that there is a text. -/
theorem mapAll_respects_null_iff (resultLength : Nat) (chars : List UChar32) :
    (mapAll false resultLength chars).Respects resultLength chars.length ↔
      chars.length = 0 ∨ resultLength < chars.length := by
  obtain ⟨length, writes, error⟩ := foldl_put_null ⟨0, resultLength, false, []⟩ chars
  rw [Nat.zero_add] at length
  have flag : (mapAll false resultLength chars).error = true ↔ 0 < chars.length :=
    error.trans (or_iff_right Bool.false_ne_true)
  constructor
  · intro respects
    have := flag.symm.trans respects.flag
    omega
  · intro fine
    refine ⟨?_, flag.trans ⟨fun _ => by omega, fun _ => by omega⟩, length⟩
    intro write member
    rw [show (mapAll false resultLength chars).writes = [] from writes] at member
    cases member

end Unicode

namespace StringImpl
open Unicode

def isASCIIUpper (c : UChar) : Bool := 0x41 ≤ c ∧ c ≤ 0x5a

def toASCIIUpper (c : UChar) : UChar :=
  if 0x61 ≤ c ∧ c ≤ 0x7a then c - 0x20 else c

/-- Whether `ored` has none of the upper bits. -/
def isASCII (data : Text) : Bool := data.foldl (fun ored c => ored ||| c) 0 &&& 0xff80 == 0

/-- A buffer behind its writes. What is written elsewhere does not change it. -/
def stored (buffer : List (Option UChar)) (writes : List (Nat × UChar)) : List (Option UChar) :=
  writes.foldl (fun buffer write => buffer.set write.1 (some write.2)) buffer

/-- A new string, whose characters are not set. -/
def createUninitialized (length : Nat) : List (Option UChar) := List.replicate length none

/-- The part that `lower`, `upper` and `foldCase` share: a buffer of the length of the text is tried
first, and then one of the length that the mapping returned. A string with characters that were never
set is no result. -/
def retry (mapping : Int → Mapped) (newImpl : List (Option UChar)) (m_data : Text) : Option Text :=
  let first := mapping m_data.length
  if first.error = false ∧ first.length = m_data.length then (stored newImpl first.writes).mapM id
  else
    let second := mapping first.length
    if second.error then some m_data
    else (stored (createUninitialized first.length) second.writes).mapM id

def lower (toLowerPeer : UChar → UChar32) (m_data : Text) : Option Text :=
  let noUpper := m_data.all fun c => !isASCIIUpper c
  if noUpper ∧ isASCII m_data then some m_data
  else if isASCII m_data then some (m_data.map toASCIILower)
  else
    retry (fun length => toLower toLowerPeer true length m_data)
      (createUninitialized m_data.length) m_data

def upper (toUpperPeer : UChar → UChar32) (m_data : Text) : Option Text :=
  let data := m_data.map toASCIIUpper
  if isASCII m_data then some data
  else retry (fun length => toUpper toUpperPeer true length m_data) (data.map some) m_data

def foldCase (foldCaseFull : UChar → List UChar32) (m_data : Text) : Option Text :=
  let data := m_data.map toASCIILower
  if isASCII m_data then some data
  else retry (fun length => Unicode.foldCase foldCaseFull true length m_data) (data.map some) m_data

/-- Writes one behind the other cover the buffer from where they start. -/
theorem stored_placed (front : List (Option UChar)) (chars : List UChar32)
    (buffer : List (Option UChar)) (fits : buffer.length = chars.length) :
    stored (front ++ buffer) (placed front.length chars) =
      front ++ chars.map fun ch => some ch.toUInt16 := by
  induction chars generalizing front buffer with
  | nil =>
    rw [List.length_eq_zero_iff.mp fits]
    rfl
  | cons ch chars ih =>
    cases buffer with
    | nil => cases fits
    | cons old buffer =>
      have later := ih (front ++ [some ch.toUInt16]) buffer (Nat.succ.inj fits)
      rw [List.length_append, List.length_singleton, List.append_assoc, List.singleton_append] at later
      rw [placed, stored, List.foldl_cons]
      dsimp only
      rw [List.set_append_right _ _ (Nat.le_refl _), Nat.sub_self, List.set_cons_zero]
      refine Eq.trans later ?_
      rw [List.append_assoc, List.singleton_append, List.map_cons]

theorem mapM_some (chars : List UChar32) :
    (chars.map fun ch => some ch.toUInt16).mapM id = some (chars.map UInt32.toUInt16) := by
  induction chars with
  | nil => rfl
  | cons ch chars ih => simp [List.mapM_cons, ih]

/-- A buffer of the right length takes the whole text. -/
theorem stored_whole (buffer : List (Option UChar)) (chars : List UChar32)
    (fits : buffer.length = chars.length) :
    (stored buffer (mapAll true chars.length chars).writes).mapM id =
      some (chars.map UInt32.toUInt16) := by
  rw [(mapAll_spec chars.length chars).2.1, List.take_of_length_le (Nat.le_succ _)]
  have whole := stored_placed [] chars buffer fits
  rw [List.nil_append, List.nil_append, List.length_nil] at whole
  rw [whole, mapM_some]

/-- The second call has room, so the text is complete. -/
theorem retry_whole (newImpl : List (Option UChar)) (m_data : Text) (chars : List UChar32)
    (made : newImpl.length = m_data.length) :
    retry (fun length => mapAll true length chars) newImpl m_data =
      some (chars.map UInt32.toUInt16) := by
  have length := (mapAll_spec m_data.length chars).1
  rw [retry]
  dsimp only
  rw [length]
  split
  · rename_i same
    rw [← same.2] at made ⊢
    exact stored_whole newImpl chars made
  · have room : ¬(mapAll true chars.length chars).error = true := by
      rw [(mapAll_spec chars.length chars).2.2]
      omega
    rw [if_neg room]
    exact stored_whole _ chars List.length_replicate

theorem toASCIILower_of_not_upper {c : UChar} (other : isASCIIUpper c = false) :
    toASCIILower c = c :=
  if_neg (of_decide_eq_false other)

/-- The text that the callers return is complete: the platform's characters, or the ASCII ones where
the text has no others. -/
theorem lower_eq (toLowerPeer : UChar → UChar32) (m_data : Text) :
    lower toLowerPeer m_data =
      some (if isASCII m_data then m_data.map toASCIILower
        else (m_data.map toLowerPeer).map UInt32.toUInt16) := by
  have whole := retry_whole (createUninitialized m_data.length) m_data (m_data.map toLowerPeer)
    List.length_replicate
  simp only [← mapEach_eq] at whole
  rw [lower]
  split
  · rename_i plain
    rw [if_pos plain.2]
    congr 1
    refine (List.map_id _).symm.trans (List.map_congr_left fun c member => ?_)
    have other := List.all_eq_true.mp plain.1 c member
    exact (toASCIILower_of_not_upper (by simpa using other)).symm
  · split
    · rfl
    · exact whole

theorem upper_eq (toUpperPeer : UChar → UChar32) (m_data : Text) :
    upper toUpperPeer m_data =
      some (if isASCII m_data then m_data.map toASCIIUpper
        else (m_data.map toUpperPeer).map UInt32.toUInt16) := by
  have whole := retry_whole ((m_data.map toASCIIUpper).map some) m_data (m_data.map toUpperPeer)
    (by rw [List.length_map, List.length_map])
  simp only [← mapEach_eq] at whole
  rw [upper]
  split
  · rfl
  · exact whole

theorem foldCase_eq (foldCaseFull : UChar → List UChar32) (m_data : Text) :
    foldCase foldCaseFull m_data =
      some (if isASCII m_data then m_data.map toASCIILower
        else (m_data.flatMap foldCaseFull).map UInt32.toUInt16) := by
  have whole := retry_whole ((m_data.map toASCIILower).map some) m_data
    (m_data.flatMap foldCaseFull) (by rw [List.length_map, List.length_map])
  simp only [← Unicode.foldCase_eq] at whole
  rw [foldCase]
  split
  · rfl
  · exact whole

end StringImpl

namespace Unicode

/-- A buffer is long enough for the whole text; without one the text is empty, or too long. -/
def Fits (result : Bool) (resultLength full : Nat) : Prop :=
  if result then full ≤ resultLength else full = 0 ∨ resultLength < full

theorem mapAll_fits_iff (result : Bool) (resultLength : Nat) (chars : List UChar32) :
    (mapAll result resultLength chars).Respects resultLength chars.length ↔
      Fits result resultLength chars.length := by
  cases result with
  | false => exact mapAll_respects_null_iff resultLength chars
  | true => exact mapAll_respects_iff resultLength chars

/-- A mapping keeps to its buffer exactly when the mapped text fits, and the callers that try twice get
the complete text. -/
theorem mappings_respect_iff (foldCaseFull : UChar → List UChar32)
    (toLowerPeer toUpperPeer : UChar → UChar32) (result : Bool) (resultLength : Nat) (src : Text) :
    ((foldCase foldCaseFull result resultLength src).Respects resultLength
        (src.flatMap foldCaseFull).length ↔
      Fits result resultLength (src.flatMap foldCaseFull).length) ∧
    ((toLower toLowerPeer result resultLength src).Respects resultLength src.length ↔
      Fits result resultLength src.length) ∧
    ((toUpper toUpperPeer result resultLength src).Respects resultLength src.length ↔
      Fits result resultLength src.length) ∧
    StringImpl.foldCase foldCaseFull src =
      some (if StringImpl.isASCII src then src.map toASCIILower
        else (src.flatMap foldCaseFull).map UInt32.toUInt16) ∧
    StringImpl.lower toLowerPeer src =
      some (if StringImpl.isASCII src then src.map toASCIILower
        else (src.map toLowerPeer).map UInt32.toUInt16) ∧
    StringImpl.upper toUpperPeer src =
      some (if StringImpl.isASCII src then src.map StringImpl.toASCIIUpper
        else (src.map toUpperPeer).map UInt32.toUInt16) := by
  have lower := mapAll_fits_iff result resultLength (src.map toLowerPeer)
  have upper := mapAll_fits_iff result resultLength (src.map toUpperPeer)
  rw [← mapEach_eq, List.length_map] at lower upper
  refine ⟨?_, lower, upper, StringImpl.foldCase_eq foldCaseFull src,
    StringImpl.lower_eq toLowerPeer src, StringImpl.upper_eq toUpperPeer src⟩
  rw [foldCase_eq]
  exact mapAll_fits_iff result resultLength _

/-- A sharp s that folds to two letters is written behind a buffer for one, and no error is reported. -/
theorem not_respects :
    ¬∀ (foldCaseFull : UChar → List UChar32) (resultLength : Nat) (src : Text),
      (foldCase foldCaseFull true resultLength src).Respects resultLength
        (src.flatMap foldCaseFull).length := by
  intro all
  have respects := all (fun c => if c = 0xdf then [0x73, 0x73] else [c.toUInt32]) 1 [0xdf]
  have inside := respects.within (1, 0x73) (by decide)
  exact absurd inside (by decide)

end Unicode
end WkcBrowser.Wtf
