import WkcBrowser.Lib.Along
import WkcBrowser.Loader.TextResourceDecoder

/-! Which bytes a decoder gives to its codec when the data begins with a byte order mark. -/

namespace WkcBrowser.Loader.TextResourceDecoder

open Lib Wtf

variable {C : Type} (encodings : TextEncodings C) (s : TextResourceDecoder C) (data : List Byte)

/-! What the checks leave alone. -/

/-- Only the encoding, its source and the codec differ. -/
structure SameChecks (s s' : TextResourceDecoder C) : Prop where
  contentType : s'.contentType = s.contentType
  buffer : s'.buffer = s.buffer
  checkedForCSSCharset : s'.checkedForCSSCharset = s.checkedForCSSCharset
  checkedForHeadCharset : s'.checkedForHeadCharset = s.checkedForHeadCharset

theorem SameChecks.refl : s.SameChecks s := ⟨rfl, rfl, rfl, rfl⟩

theorem setEncoding_sameChecks (encoding : Option EncodingName) (source : EncodingSource) :
    s.SameChecks (s.setEncoding encodings encoding source) := by
  cases encoding with
  | none => exact .refl s
  | some name => exact ⟨rfl, rfl, rfl, rfl⟩

theorem autoDetect_buffer : (s.autoDetect encodings data).buffer = s.buffer := by
  rw [autoDetect, detect]
  split_ifs
  · split
    · exact (setEncoding_sameChecks encodings s _ _).buffer
    · rfl
  · split
    · exact (setEncoding_sameChecks encodings s _ _).buffer
    · rfl
  · rfl

/-! The mark. -/

/-- The length of the mark that four bytes are taken for. -/
def markLength (c1 c2 c3 c4 : Byte) : Nat :=
  if c1 = 0xff && c2 = 0xfe then if c3 ≠ 0 || c4 ≠ 0 then 2 else 4
  else if c1 = 0xef && c2 = 0xbb && c3 = 0xbf then 3
  else if c1 = 0xfe && c2 = 0xff then 2
  else if c1 = 0 && c2 = 0 && c3 = 0xfe && c4 = 0xff then 4
  else 0

/-- What is set for the mark, and its length. -/
def mark (c1 c2 c3 c4 : Byte) : TextResourceDecoder C × Nat :=
  if c1 = 0xff && c2 = 0xfe then
    if c3 ≠ 0 || c4 ≠ 0 then
      (s.setEncoding encodings (UTF16LittleEndianEncoding encodings) .AutoDetectedEncoding, 2)
    else (s.setEncoding encodings (UTF32LittleEndianEncoding encodings) .AutoDetectedEncoding, 4)
  else if c1 = 0xef && c2 = 0xbb && c3 = 0xbf then
    (s.setEncoding encodings (UTF8Encoding encodings) .AutoDetectedEncoding, 3)
  else if c1 = 0xfe && c2 = 0xff then
    (s.setEncoding encodings (UTF16BigEndianEncoding encodings) .AutoDetectedEncoding, 2)
  else if c1 = 0 && c2 = 0 && c3 = 0xfe && c4 = 0xff then
    (s.setEncoding encodings (UTF32BigEndianEncoding encodings) .AutoDetectedEncoding, 4)
  else (s, 0)

theorem mark_cases (c1 c2 c3 c4 : Byte) : s.SameChecks (s.mark encodings c1 c2 c3 c4).1 ∧
    (s.mark encodings c1 c2 c3 c4).2 = markLength c1 c2 c3 c4 := by
  rw [mark, markLength]
  split_ifs
  · exact ⟨setEncoding_sameChecks encodings s _ _, rfl⟩
  · exact ⟨setEncoding_sameChecks encodings s _ _, rfl⟩
  · exact ⟨setEncoding_sameChecks encodings s _ _, rfl⟩
  · exact ⟨setEncoding_sameChecks encodings s _ _, rfl⟩
  · exact ⟨setEncoding_sameChecks encodings s _ _, rfl⟩
  · exact ⟨.refl s, rfl⟩

/-- The fourth byte is read from the data that is new. -/
def fourth : Byte := (data.drop (3 - s.buffer.length)).headD 0

def markAt : TextResourceDecoder C × Nat :=
  s.mark encodings ((s.buffer ++ data).getD 0 0) ((s.buffer ++ data).getD 1 0)
    ((s.buffer ++ data).getD 2 0) (s.fourth data)

theorem checkForBOM_eq : ∃ checked, s.checkForBOM encodings data =
    ({ (s.markAt encodings data).1 with checkedForBOM := checked }, (s.markAt encodings data).2) := by
  have whole : s.checkForBOM encodings data =
      if (s.markAt encodings data).2 ≠ 0 || 4 ≤ s.buffer.length + data.length then
        ({ (s.markAt encodings data).1 with checkedForBOM := true }, (s.markAt encodings data).2)
      else s.markAt encodings data := rfl
  rw [whole]
  split_ifs
  · exact ⟨true, rfl⟩
  · exact ⟨(s.markAt encodings data).1.checkedForBOM, rfl⟩

/-- The bytes begin with the mark of UTF-16, or of UTF-32 if null bytes follow that are not there. -/
def IsShortMark (bytes : List Byte) : Prop := bytes = [0xff, 0xfe] ∨ bytes = [0xff, 0xfe, 0]

theorem markLength_le (c1 c2 c3 c4 : Byte) : markLength c1 c2 c3 c4 ≤ 4 := by
  rw [markLength]
  split_ifs <;> omega

theorem markLength_short_le (a b c : Byte) :
    (markLength a 0 0 0 ≤ 1) ∧ (markLength a b 0 0 ≤ 2 ↔ ¬(a = 0xff ∧ b = 0xfe)) ∧
      (markLength a b c 0 ≤ 3 ↔ ¬(a = 0xff ∧ b = 0xfe ∧ c = 0)) := by
  have last : ¬(0 : Byte) = 0xff := by decide
  refine ⟨by simp [markLength], ?_, ?_⟩
  · by_cases little : a = 0xff ∧ b = 0xfe
    · simp [markLength, little]
    · simp only [markLength, ← Bool.decide_and, decide_eq_true_eq, little, not_false_iff, iff_true]
      split_ifs <;> simp_all
  · by_cases little : a = 0xff ∧ b = 0xfe
    · by_cases null : c = 0
      · simp [markLength, little, null]
      · simp [markLength, little, null]
    · have other : ¬(a = 0xff ∧ b = 0xfe ∧ c = 0) := fun all => little ⟨all.1, all.2.1⟩
      simp only [markLength, ← Bool.decide_and, decide_eq_true_eq, if_neg little, other,
        not_false_iff, iff_true]
      split_ifs <;> simp_all

theorem markAt_le_iff : (s.markAt encodings data).2 ≤ (s.buffer ++ data).length ↔
    ¬IsShortMark (s.buffer ++ data) := by
  rw [markAt, (s.mark_cases encodings _ _ _ _).2]
  by_cases long : 4 ≤ (s.buffer ++ data).length
  · have least := markLength_le ((s.buffer ++ data).getD 0 0) ((s.buffer ++ data).getD 1 0)
      ((s.buffer ++ data).getD 2 0) (s.fourth data)
    refine ⟨fun _ short => ?_, fun _ => by omega⟩
    rcases short with same | same
    · rw [same] at long
      exact absurd long (by decide)
    · rw [same] at long
      exact absurd long (by decide)
  · have none : s.fourth data = 0 := by
      have beyond : data.drop (3 - s.buffer.length) = [] := by
        rw [List.drop_eq_nil_iff]
        rw [List.length_append] at long
        omega
      rw [fourth, beyond]
      rfl
    rw [none]
    generalize s.buffer ++ data = bytes at long
    cases bytes with
    | nil => simp [markLength, IsShortMark]
    | cons a bytes =>
      cases bytes with
      | nil =>
        have one := (markLength_short_le a 0 0).1
        simpa [IsShortMark] using one
      | cons b bytes =>
        cases bytes with
        | nil =>
          have two := (markLength_short_le a b 0).2.1
          simpa [IsShortMark] using two
        | cons c bytes =>
          cases bytes with
          | nil =>
            have three := (markLength_short_le a b c).2.2
            simpa [IsShortMark] using three
          | cons d bytes => exact absurd (by simp : 4 ≤ (a :: b :: c :: d :: bytes).length) long

/-! The checks for a charset. -/

/-- The data is in the buffer if it was moved there. -/
structure Moves (c : Checked C) : Prop where
  contentType : c.decoder.contentType = s.contentType
  buffer : c.decoder.buffer = if c.movedDataToBuffer then s.buffer ++ data else s.buffer

theorem setEncoding_moves {moved : TextResourceDecoder C} (contentType : moved.contentType = s.contentType)
    (buffer : moved.buffer = s.buffer ++ data) (encoding : Option EncodingName)
    (source : EncodingSource) (goesOn : Bool) :
    s.Moves data ⟨moved.setEncoding encodings encoding source, true, goesOn⟩ := by
  have same := setEncoding_sameChecks encodings moved encoding source
  exact ⟨same.contentType.trans contentType, same.buffer.trans buffer⟩

theorem checkForCSSCharset_moves : s.Moves data (s.checkForCSSCharset encodings data) := by
  rw [checkForCSSCharset]
  split_ifs
  · exact ⟨rfl, rfl⟩
  · dsimp only
    split_ifs
    · split
      · exact ⟨rfl, rfl⟩
      · exact ⟨rfl, rfl⟩
      · next encodingName _ =>
        have moves := @setEncoding_moves _ encodings s data { s with buffer := s.buffer ++ data } rfl rfl
          (textEncoding encodings encodingName) .EncodingFromCSSCharset true
        exact ⟨moves.contentType, moves.buffer⟩
    · exact ⟨rfl, rfl⟩

theorem checkHead_moves {moved : TextResourceDecoder C} (contentType : moved.contentType = s.contentType)
    (buffer : moved.buffer = s.buffer ++ data) : s.Moves data (moved.checkHead encodings) := by
  rw [checkHead]
  split_ifs
  · exact ⟨contentType, buffer⟩
  · split
    · exact ⟨contentType, buffer⟩
    · exact setEncoding_moves encodings s data contentType buffer _ _ _
    · exact ⟨contentType, buffer⟩

theorem checkForHeadCharset_moves : s.Moves data (s.checkForHeadCharset encodings data) := by
  have moves := fun encoding source => @setEncoding_moves _ encodings s data
    { s with buffer := s.buffer ++ data } rfl rfl encoding source true
  rw [checkForHeadCharset]
  split_ifs
  · exact ⟨rfl, rfl⟩
  · dsimp only
    split_ifs
    · exact ⟨rfl, rfl⟩
    · split
      · exact checkHead_moves encodings s data rfl rfl
      · have same := fun name => setEncoding_sameChecks encodings { s with buffer := s.buffer ++ data }
          (textEncoding encodings name) .EncodingFromXMLHeader
        exact checkHead_moves encodings s data (same _).contentType (same _).buffer
    · exact ⟨rfl, rfl⟩
    · exact moves _ _
    · exact moves _ _
    · exact moves _ _
    · exact moves _ _
    · exact checkHead_moves encodings s data rfl rfl

/-- A charset in the content is still looked for. -/
def looksForCharset : Bool :=
  s.contentType = .CSS && !s.checkedForCSSCharset ||
    (s.contentType = .HTML || s.contentType = .XML) && !s.checkedForHeadCharset

theorem checkForCharset_moves : s.Moves data (s.checkForCharset encodings data) := by
  rw [checkForCharset]
  by_cases css : (decide (s.contentType = .CSS) && !s.checkedForCSSCharset) = true
  · have moves := checkForCSSCharset_moves encodings s data
    have isCSS := of_decide_eq_true (Bool.and_eq_true_iff.mp css).1
    have noHead : ¬((decide ((s.checkForCSSCharset encodings data).decoder.contentType = .HTML) ||
        decide ((s.checkForCSSCharset encodings data).decoder.contentType = .XML)) &&
          !(s.checkForCSSCharset encodings data).decoder.checkedForHeadCharset) = true := by
      rw [moves.contentType, isCSS]
      exact nofun
    rw [if_pos css, if_neg noHead, ite_self]
    exact moves
  · rw [if_neg css]
    split_ifs
    · exact ⟨rfl, rfl⟩
    · exact checkForHeadCharset_moves encodings s data
    · exact ⟨rfl, rfl⟩

theorem checkForCSSCharset_short (short : (s.buffer ++ data).length < 8) :
    (s.checkForCSSCharset encodings data).goesOn = !s.isOpen := by
  rw [checkForCSSCharset]
  cases s.isOpen with
  | false => rfl
  | true =>
    have few : ¬(s.buffer ++ data).length > 8 := by omega
    exact congrArg Checked.goesOn (if_neg few)

theorem checkForHeadCharset_short (short : (s.buffer ++ data).length < 8) :
    (s.checkForHeadCharset encodings data).goesOn = !s.isOpen := by
  rw [checkForHeadCharset]
  cases s.isOpen with
  | false => rfl
  | true => exact congrArg Checked.goesOn (if_pos short)

/-- Few bytes are only let through when no charset is looked for in them. -/
theorem checkForCharset_short (short : (s.buffer ++ data).length < 8) :
    (s.checkForCharset encodings data).goesOn = (!s.isOpen || !s.looksForCharset) := by
  rw [checkForCharset, looksForCharset]
  by_cases css : (decide (s.contentType = .CSS) && !s.checkedForCSSCharset) = true
  · have moves := checkForCSSCharset_moves encodings s data
    have isCSS := of_decide_eq_true (Bool.and_eq_true_iff.mp css).1
    have noHead : ¬((decide ((s.checkForCSSCharset encodings data).decoder.contentType = .HTML) ||
        decide ((s.checkForCSSCharset encodings data).decoder.contentType = .XML)) &&
          !(s.checkForCSSCharset encodings data).decoder.checkedForHeadCharset) = true := by
      rw [moves.contentType, isCSS]
      exact nofun
    rw [if_pos css, if_neg noHead, ite_self, checkForCSSCharset_short encodings s data short, css,
      Bool.true_or, Bool.not_true, Bool.or_false]
  · rw [if_neg css, Bool.not_eq_true _ |>.mp css, Bool.false_or, Bool.not_true]
    by_cases head : ((decide (s.contentType = .HTML) || decide (s.contentType = .XML)) &&
        !s.checkedForHeadCharset) = true
    · rw [if_neg Bool.false_ne_true, if_pos head, checkForHeadCharset_short encodings s data short, head,
        Bool.not_true, Bool.or_false]
    · rw [if_neg Bool.false_ne_true, if_neg head, Bool.not_eq_true _ |>.mp head, Bool.not_false,
        Bool.or_true]

/-! What the codec is given. -/

/-- The state and the length of the mark when the charset is looked for. -/
def marked : TextResourceDecoder C × Nat :=
  if s.checkedForBOM then (s, 0) else s.checkForBOM encodings data

theorem marked_sameChecks : s.SameChecks (s.marked encodings data).1 := by
  rw [marked]
  split_ifs
  · exact .refl s
  · obtain ⟨checked, same⟩ := s.checkForBOM_eq encodings data
    have kept := (s.mark_cases encodings ((s.buffer ++ data).getD 0 0) ((s.buffer ++ data).getD 1 0)
      ((s.buffer ++ data).getD 2 0) (s.fourth data)).1
    rw [same]
    exact ⟨kept.contentType, kept.buffer, kept.checkedForCSSCharset, kept.checkedForHeadCharset⟩

/-- The codec is given all the bytes, from the mark on. -/
theorem prepare_handed : ((s.prepare encodings data).2.isSome =
      ((s.marked encodings data).1.checkForCharset encodings data).goesOn) ∧
    ∀ handed, (s.prepare encodings data).2 = some handed →
      handed.bytes = s.buffer ++ data ∧ handed.offset = (s.marked encodings data).2 := by
  have same := s.marked_sameChecks encodings data
  have moves := checkForCharset_moves encodings (s.marked encodings data).1 data
  have buffer := moves.buffer
  rw [same.buffer] at buffer
  have whole : s.prepare encodings data =
      let checked := (s.marked encodings data).1.checkForCharset encodings data
      if !checked.goesOn then (checked.decoder, none)
      else
        let detected := checked.decoder.autoDetect encodings data
        if detected.buffer = [] then
          (detected, some ⟨data, (s.marked encodings data).2, detected.contentType = .XML⟩)
        else
          let whole := if checked.movedDataToBuffer then detected.buffer else detected.buffer ++ data
          ({ detected with buffer := [] }, some ⟨whole, (s.marked encodings data).2,
            detected.contentType = .XML && !detected.useLenientXMLDecoding⟩) := rfl
  rw [whole]
  dsimp only
  rw [autoDetect_buffer]
  by_cases goesOn : ((s.marked encodings data).1.checkForCharset encodings data).goesOn = true
  · rw [goesOn, Bool.not_true, if_neg Bool.false_ne_true]
    by_cases empty : ((s.marked encodings data).1.checkForCharset encodings data).decoder.buffer = []
    · rw [if_pos empty]
      refine ⟨rfl, fun handed given => ?_⟩
      rw [← Option.some.inj given]
      refine ⟨?_, rfl⟩
      rw [empty] at buffer
      split_ifs at buffer
      · obtain ⟨none, nothing⟩ := List.append_eq_nil_iff.mp buffer.symm
        rw [none, nothing]
        rfl
      · rw [← buffer]
        rfl
    · rw [if_neg empty]
      refine ⟨rfl, fun handed given => ?_⟩
      rw [← Option.some.inj given]
      refine ⟨?_, rfl⟩
      rw [buffer]
      split_ifs
      · rfl
      · rfl
  · rw [Bool.not_eq_true _ |>.mp goesOn, Bool.not_false, if_pos rfl]
    exact ⟨rfl, nofun⟩

/-- The codec is given a part of what is there. -/
def InRange : Prop :=
  ∀ handed, (s.prepare encodings data).2 = some handed → handed.offset ≤ handed.bytes.length

/-- The bytes begin with the mark of UTF-16 and may be followed by null bytes alone, and no charset is
looked for in them. -/
def ReadsMissing : Prop :=
  s.checkedForBOM = false ∧ IsShortMark (s.buffer ++ data) ∧
    (s.isOpen = false ∨ (UTF32LittleEndianEncoding encodings).isSome = true ∨
      s.looksForCharset = false)

theorem looksForCharset_congr {s s' : TextResourceDecoder C} (same : s.SameChecks s') :
    s'.looksForCharset = s.looksForCharset := by
  rw [looksForCharset, looksForCharset, same.contentType, same.checkedForCSSCharset,
    same.checkedForHeadCharset]

/-- A short mark is taken for the one of UTF-32, which decides the encoding if there is such a codec. -/
theorem marked_isOpen (unchecked : s.checkedForBOM = false) (short : IsShortMark (s.buffer ++ data)) :
    (s.marked encodings data).1.isOpen =
      (s.isOpen && (UTF32LittleEndianEncoding encodings).isNone) := by
  have length : (s.buffer ++ data).length ≤ 3 := by
    rcases short with same | same <;> rw [same] <;> decide
  have fourth : s.fourth data = 0 := by
    have beyond : data.drop (3 - s.buffer.length) = [] := by
      rw [List.drop_eq_nil_iff]
      rw [List.length_append] at length
      omega
    rw [TextResourceDecoder.fourth, beyond]
    rfl
  have bytes : (s.buffer ++ data).getD 0 0 = 0xff ∧ (s.buffer ++ data).getD 1 0 = 0xfe ∧
      (s.buffer ++ data).getD 2 0 = 0 := by
    rcases short with same | same <;> rw [same] <;> decide
  have mark : s.markAt encodings data =
      (s.setEncoding encodings (UTF32LittleEndianEncoding encodings) .AutoDetectedEncoding, 4) := by
    rw [markAt, bytes.1, bytes.2.1, bytes.2.2, fourth]
    rfl
  obtain ⟨checked, same⟩ := s.checkForBOM_eq encodings data
  have isOpen : (s.marked encodings data).1.isOpen = (s.markAt encodings data).1.isOpen := by
    rw [marked, unchecked, if_neg Bool.false_ne_true, same]
    rfl
  rw [isOpen, mark]
  cases UTF32LittleEndianEncoding encodings with
  | none => exact (Bool.and_true _).symm
  | some name => exact (Bool.and_false _).symm

/-- The codec is given a part of what is there unless a short mark is read. -/
theorem inRange_iff : s.InRange encodings data ↔ ¬s.ReadsMissing encodings data := by
  obtain ⟨isSome, given⟩ := s.prepare_handed encodings data
  by_cases checked : s.checkedForBOM = true
  · have noMark : (s.marked encodings data).2 = 0 := by rw [marked, if_pos checked]
    constructor
    · rintro - ⟨unchecked, -⟩
      exact absurd (checked.symm.trans unchecked) nofun
    · intro _ handed found
      rw [(given handed found).2, noMark]
      exact Nat.zero_le _
  have unchecked := Bool.not_eq_true _ |>.mp checked
  have length : (s.marked encodings data).2 = (s.markAt encodings data).2 := by
    obtain ⟨_, same⟩ := s.checkForBOM_eq encodings data
    rw [marked, if_neg checked, same]
  have fits := s.markAt_le_iff encodings data
  by_cases short : IsShortMark (s.buffer ++ data)
  · have few : (s.buffer ++ data).length < 8 := by
      rcases short with same | same <;> rw [same] <;> decide
    have same := s.marked_sameChecks encodings data
    have goesOn := checkForCharset_short encodings (s.marked encodings data).1 data
      (same.buffer.symm ▸ few)
    rw [looksForCharset_congr same, s.marked_isOpen encodings data unchecked short] at goesOn
    have handed_iff : s.InRange encodings data ↔ (s.prepare encodings data).2.isSome = false := by
      constructor
      · intro inRange
        cases found : (s.prepare encodings data).2 with
        | none => rfl
        | some handed =>
          have fitting := inRange handed found
          rw [(given handed found).1, (given handed found).2, length] at fitting
          exact absurd short (fits.mp fitting)
      · intro none handed found
        rw [found] at none
        cases none
    rw [handed_iff, isSome, goesOn, ReadsMissing]
    cases s.isOpen <;> cases UTF32LittleEndianEncoding encodings <;> cases s.looksForCharset <;>
      simp [unchecked, short]
  · constructor
    · rintro - ⟨-, is_short, -⟩
      exact short is_short
    · intro _ handed found
      rw [(given handed found).1, (given handed found).2, length]
      exact fits.mpr short

/-! Runs. -/

inductive Call where
  | decode (data : List Byte)
  | flush
  | setEncoding (encoding : Option EncodingName) (source : EncodingSource)

def step (s : TextResourceDecoder C) : Call → TextResourceDecoder C
  | .decode data => (s.decode encodings data).1
  | .flush => (s.flush encodings).1
  | .setEncoding encoding source => s.setEncoding encodings encoding source

/-- The codec is given a part of what is there. -/
def GivesPart (s : TextResourceDecoder C) : Call → Prop
  | .decode data => s.InRange encodings data
  | _ => True

/-- No short mark is read. -/
def WithoutShortMark (s : TextResourceDecoder C) : Call → Prop
  | .decode data => ¬s.ReadsMissing encodings data
  | _ => True

/-- The codec is given parts of what is there in all calls of a decoder exactly when no short mark is
read. -/
theorem givesPart_along_iff (contentType : ContentType) (specifiedDefaultEncoding : Option EncodingName)
    (usesEncodingDetector : Bool) (calls : List Call) :
    Along (step encodings) (GivesPart encodings)
        (create encodings contentType specifiedDefaultEncoding usesEncodingDetector) calls ↔
      Along (step encodings) (WithoutShortMark encodings)
        (create encodings contentType specifiedDefaultEncoding usesEncodingDetector) calls := by
  have agree : ∀ (s : TextResourceDecoder C) call, GivesPart encodings s call ↔
      WithoutShortMark encodings s call := by
    intro s call
    cases call with
    | decode data => exact s.inRange_iff encodings data
    | flush => exact Iff.rfl
    | setEncoding encoding source => exact Iff.rfl
  exact @along_iff _ _ (step encodings) (fun _ _ => True) _ _ (fun _ => True)
    (fun s call _ _ => agree s call) (fun _ _ _ _ _ => trivial) _ _ trivial
    (along_of_forall (fun _ _ => trivial) _ _)

/-- Some encodings of the platform, all with one codec. -/
def someEncodings : TextEncodings Unit where
  canonicalName name :=
    if name ∈ [ascii "UTF-8", ascii "UTF-16LE", ascii "UTF-16BE", ascii "Latin-1"] then some name
    else none
  isJapanese _ := false
  newTextCodec _ := ()
  decode codec bytes _ _ := (codec, widen bytes, false)
  judge _ := none
  detectTextEncoding _ _ := none

/-- Two bytes are all that a plain text begins with. -/
theorem not_givesPart : ¬∀ (contentType : ContentType) (chunks : List (List Byte)),
    (∀ chunk ∈ chunks, chunk ≠ []) →
      Along (step someEncodings) (GivesPart someEncodings)
        (create someEncodings contentType none false) (chunks.map .decode) := by
  intro gives
  have first := (gives .PlainText [[0xff, 0xfe]] (by decide)).1
  have short : (create someEncodings .PlainText none false).ReadsMissing someEncodings [0xff, 0xfe] :=
    ⟨rfl, .inl rfl, .inr (.inr rfl)⟩
  exact (inRange_iff someEncodings _ _).mp first short

end WkcBrowser.Loader.TextResourceDecoder
