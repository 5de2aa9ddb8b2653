import Mathlib.Data.List.Infix
import WkcBrowser.Url.EscapeSequences

/-! What `copyPathRemovingDots` keeps of a path, and that a path from which it removes something is
shorter when it is decoded. -/

namespace WkcBrowser.Url

open Lib Wtf

theorem dropSlashes_suffix (copied : List Byte) : dropSlashes copied <:+ copied := by
  induction copied using dropSlashes.induct with
  | case1 next copied ih =>
    rw [dropSlashes, if_pos rfl]
    exact ih.trans (List.suffix_cons _ _)
  | case2 c next copied other =>
    rw [dropSlashes, if_neg other]
  | case3 copied short =>
    rw [dropSlashes.eq_def]
    split
    · exact absurd rfl (short _ _ _)
    · exact List.suffix_rfl

theorem rewindSegment_suffix (copied : List Byte) : rewindSegment copied <:+ copied := by
  have started : (if 1 < copied.length then copied.tail else copied) <:+ copied := by
    split_ifs
    · exact List.tail_suffix copied
    · exact List.suffix_rfl
  exact ((List.dropWhile_suffix _).trans (dropSlashes_suffix _)).trans started

theorem dropSlashes_ne_nil {copied : List Byte} (some : copied ≠ []) : dropSlashes copied ≠ [] := by
  induction copied using dropSlashes.induct with
  | case1 next copied ih =>
    rw [dropSlashes, if_pos rfl]
    exact ih (List.cons_ne_nil _ _)
  | case2 c next copied other =>
    rw [dropSlashes, if_neg other]
    exact List.cons_ne_nil _ _
  | case3 copied short =>
    rw [dropSlashes.eq_def]
    split
    · exact absurd rfl (short _ _ _)
    · exact some

theorem getLast?_suffix {suffix whole : List Byte} (isSuffix : suffix <:+ whole)
    (some : suffix ≠ []) : suffix.getLast? = whole.getLast? := by
  obtain ⟨before, rfl⟩ := isSuffix
  exact (List.getLast?_append_of_ne_nil before some).symm

/-- The slash that a path begins with is never taken back. -/
theorem rewindSegment_last {copied : List Byte} (last : copied.getLast? = some 0x2f) :
    (rewindSegment copied).getLast? = some 0x2f := by
  have some : copied ≠ [] := by
    rintro rfl
    cases last
  have started : (if 1 < copied.length then copied.tail else copied) ≠ [] := by
    split_ifs with long
    · intro none
      have length := congrArg List.length none
      rw [List.length_tail, List.length_nil] at length
      omega
    · exact some
  have slash : (0x2f : Byte) ∈ dropSlashes (if 1 < copied.length then copied.tail else copied) := by
    apply List.mem_of_getLast?
    rw [getLast?_suffix (dropSlashes_suffix _) (dropSlashes_ne_nil started)]
    split_ifs at started ⊢
    · rw [getLast?_suffix (List.tail_suffix copied) started]
      exact last
    · exact last
  have left : rewindSegment copied ≠ [] := by
    intro none
    have none := List.dropWhile_eq_nil_iff.mp none _ slash
    revert none
    decide
  rw [getLast?_suffix (rewindSegment_suffix copied) left]
  exact last

theorem rewindSegment_head {copied : List Byte} (last : copied.getLast? = some 0x2f) :
    ∃ before, rewindSegment copied = 0x2f :: before := by
  have lastLeft := rewindSegment_last last
  unfold rewindSegment at lastLeft ⊢
  have head := List.head?_dropWhile_not (fun c : Byte => decide (c ≠ 0x2f))
    (dropSlashes (if 1 < copied.length then copied.tail else copied))
  cases shape : (dropSlashes (if 1 < copied.length then copied.tail else copied)).dropWhile
      (fun c : Byte => decide (c ≠ 0x2f)) with
  | nil =>
    rw [shape] at lastLeft
    cases lastLeft
  | cons c before =>
    rw [shape] at head
    have slash : c = 0x2f := not_not.mp (of_decide_eq_false head)
    exact ⟨before, by rw [slash]⟩

theorem copySegments_last {copied : List Byte} (last : copied.getLast? = some 0x2f) (skip : Nat)
    (src : List Byte) : (copySegments skip copied src).getLast? = some 0x2f := by
  induction src generalizing skip copied with
  | nil => cases skip <;> exact last
  | cons c rest ih =>
    have put : (c :: copied).getLast? = some 0x2f := by
      rw [List.getLast?_cons, last]
      rfl
    cases skip with
    | succ skip => exact ih last skip
    | zero =>
      rw [copySegments]
      split_ifs
      · exact ih last 1
      · exact ih (rewindSegment_last last) 2
      · exact ih put 0
      · exact ih put 0

theorem copyPathRemovingDots_head {path : List Byte} (slash : path.head? = some 0x2f) :
    (copyPathRemovingDots path).head? = some 0x2f := by
  obtain ⟨rest, rfl⟩ := List.head?_eq_some_iff.mp slash
  rw [copyPathRemovingDots, List.head?_reverse]
  exact copySegments_last rfl 0 rest

theorem mem_copySegments {copied src : List Byte} {skip : Nat} {b : Byte}
    (member : b ∈ copySegments skip copied src) : b ∈ copied ∨ b ∈ src := by
  induction src generalizing skip copied with
  | nil => cases skip <;> exact .inl member
  | cons c rest ih =>
    have put (member : b ∈ copySegments 0 (c :: copied) rest) : b ∈ copied ∨ b ∈ c :: rest := by
      cases ih member with
      | inl before =>
        cases List.mem_cons.mp before with
        | inl same => exact .inr (same ▸ List.mem_cons_self)
        | inr before => exact .inl before
      | inr behind => exact .inr (List.mem_cons_of_mem c behind)
    cases skip with
    | succ skip => exact (ih member).imp_right (List.mem_cons_of_mem c)
    | zero =>
      rw [copySegments] at member
      split_ifs at member
      · exact (ih member).imp_right (List.mem_cons_of_mem c)
      · exact (ih member).imp (fun before => (rewindSegment_suffix copied).subset before)
          (List.mem_cons_of_mem c)
      · exact put member
      · exact put member

theorem mem_copyPathRemovingDots {path : List Byte} {b : Byte}
    (member : b ∈ copyPathRemovingDots path) : b ∈ path := by
  cases path with
  | nil => exact member
  | cons slash rest =>
    cases mem_copySegments (List.mem_reverse.mp member) with
    | inl first => exact List.mem_singleton.mp first ▸ List.mem_cons_self
    | inr behind => exact List.mem_cons_of_mem slash behind

theorem hasSlashDotOrDotDot_suffix {whole text : List Byte} (isSuffix : text <:+ whole)
    (none : hasSlashDotOrDotDot whole = false) : hasSlashDotOrDotDot text = false := by
  obtain ⟨before, rfl⟩ := isSuffix
  induction before with
  | nil => exact none
  | cons c before ih =>
    apply ih
    cases shape : before ++ text with
    | nil => rfl
    | cons next rest =>
      rw [List.cons_append, shape, hasSlashDotOrDotDot, Bool.or_eq_false_iff] at none
      exact none.2

theorem hasSlashDotOrDotDot_leading {whole text : List Byte} (isPrefix : text <+: whole)
    (none : hasSlashDotOrDotDot whole = false) : hasSlashDotOrDotDot text = false := by
  obtain ⟨after, rfl⟩ := isPrefix
  induction text with
  | nil => rfl
  | cons c text ih =>
    cases text with
    | nil => rfl
    | cons next rest =>
      rw [List.cons_append, List.cons_append, hasSlashDotOrDotDot, Bool.or_eq_false_iff] at none
      rw [hasSlashDotOrDotDot, none.1, Bool.false_or]
      exact ih none.2

theorem copySegments_noDots {copied src : List Byte} {slash : Byte} (last : copied.head? = some slash)
    (none : hasSlashDotOrDotDot (slash :: src) = false) :
    copySegments 0 copied src = src.reverse ++ copied := by
  induction src generalizing copied slash with
  | nil => rfl
  | cons c rest ih =>
    rw [hasSlashDotOrDotDot, Bool.or_eq_false_iff] at none
    have noSegment : ¬(decide (c = 0x2e) && decide (copied.head? = some 0x2f)) = true := by
      intro segment
      simp only [Bool.and_eq_true, decide_eq_true_eq] at segment
      rw [segment.2] at last
      cases last
      rw [segment.1] at none
      exact absurd none.1 (by decide)
    rw [copySegments, if_neg noSegment, ih rfl none.2, List.reverse_cons, List.append_assoc,
      List.singleton_append]

/-- Nothing is removed where there are no dots behind a slash. -/
theorem copyPathRemovingDots_noDots {path : List Byte} (none : hasSlashDotOrDotDot path = false) :
    copyPathRemovingDots path = path := by
  cases path with
  | nil => rfl
  | cons slash rest =>
    rw [copyPathRemovingDots, copySegments_noDots rfl none, List.reverse_append, List.reverse_reverse,
      List.reverse_singleton, List.singleton_append]

/-! Decoding. -/

section
variable {characters : Characters}

/-- No escape goes on over a character that is none of its own. -/
theorem escapedRun_append {u : UChar} (noDigit : isASCIIHexDigit u = false) (noEscape : u ≠ 0x25)
    (before after : Text) :
    escapedRun (before ++ u :: after) =
      ((escapedRun before).1, (escapedRun before).2 ++ u :: after) := by
  induction before using escapedRun.induct with
  | case1 percent high low rest isEscape run behind _ ih =>
    rw [List.cons_append, List.cons_append, List.cons_append, escapedRun, if_pos isEscape, ih,
      escapedRun, if_pos isEscape]
  | case2 percent high low rest isEscape =>
    rw [List.cons_append, List.cons_append, List.cons_append, escapedRun, if_neg isEscape, escapedRun,
      if_neg isEscape]
    rfl
  | case3 text short =>
    rcases text with _ | ⟨c, _ | ⟨high, _ | ⟨low, rest⟩⟩⟩
    · exact escapedRun_other fun same => noEscape (Option.some.inj same)
    · cases after with
      | nil => rfl
      | cons low rest =>
        show escapedRun (c :: u :: low :: rest) = ([], c :: u :: low :: rest)
        rw [escapedRun, noDigit, Bool.and_false, Bool.false_and]
        rfl
    · show escapedRun (c :: high :: u :: after) = ([], c :: high :: u :: after)
      rw [escapedRun, noDigit, Bool.and_false]
      rfl
    · exact absurd rfl (short c high low rest)

theorem decode_split {u : UChar} (noDigit : isASCIIHexDigit u = false) (noEscape : u ≠ 0x25)
    (before after : Text) :
    decodeURLEscapeSequences characters (before ++ u :: after) =
      decodeURLEscapeSequences characters before ++ u :: decodeURLEscapeSequences characters after := by
  induction size : before.length using Nat.strong_induction_on generalizing before with
  | _ size ih =>
    cases before with
    | nil =>
      have plain := @decode_plain characters [u] (fun c member => List.mem_singleton.mp member ▸ noEscape)
        after
      rw [decodeURLEscapeSequences.eq_def characters []]
      exact plain
    | cons c rest =>
      have run := escapedRun_append noDigit noEscape (c :: rest) after
      have lengths := escapedRun_length (c :: rest)
      rw [List.cons_append] at run ⊢
      rw [decodeURLEscapeSequences, decodeURLEscapeSequences]
      dsimp only
      rw [run]
      by_cases none : (escapedRun (c :: rest)).1 = []
      · rw [if_pos none, if_pos none, ih rest.length (by rw [← size]; simp) rest rfl]
        rfl
      · have some := List.length_pos_iff.mpr none
        have long : 3 * (escapedRun (c :: rest)).1.length ≤ (c :: rest).length := by omega
        rw [if_neg none, if_neg none, ih _ (by rw [← size]; omega) _ rfl, List.append_assoc,
          ← List.cons_append, List.take_append_of_le_length long]

/-- How long a path is when it is decoded. -/
def decodedLength (characters : Characters) (path : List Byte) : Nat :=
  (decodeURLEscapeSequences characters (widen path)).length

theorem decodedLength_nil : decodedLength characters [] = 0 := by
  rw [decodedLength, widen, List.map_nil, decodeURLEscapeSequences, List.length_nil]

theorem decodedLength_split {b : Byte} (mark : b = 0x2e ∨ b = 0x2f) (before after : List Byte) :
    decodedLength characters (before ++ b :: after) =
      decodedLength characters before + 1 + decodedLength characters after := by
  have noDigit : isASCIIHexDigit b.toUInt16 = false ∧ b.toUInt16 ≠ 0x25 := by
    obtain rfl | rfl := mark <;> decide
  rw [decodedLength, widen, List.map_append, List.map_cons, decode_split noDigit.1 noDigit.2,
    List.length_append, List.length_cons, ← Nat.add_assoc, Nat.add_right_comm]
  rfl

theorem decodedLength_mark {b : Byte} (mark : b = 0x2e ∨ b = 0x2f) (after : List Byte) :
    decodedLength characters (b :: after) = 1 + decodedLength characters after := by
  have split := @decodedLength_split characters b mark [] after
  rwa [List.nil_append, decodedLength_nil, Nat.zero_add] at split

theorem decodedLength_drop {rest : List Byte} (ended : rest.headD 0x2f = 0x2f) :
    decodedLength characters (rest.drop 1) ≤ decodedLength characters rest := by
  cases rest with
  | nil => exact Nat.le_refl _
  | cons c rest =>
    have slash : c = 0x2f := ended
    rw [decodedLength_mark (.inr slash), List.drop_succ_cons, List.drop_zero]
    exact Nat.le_add_left _ _

theorem decodedLength_dot {copied rest : List Byte} {c : Byte} (slash : copied.head? = some 0x2f)
    (dot : c = 0x2e) (ended : rest.headD 0x2f = 0x2f) :
    decodedLength characters (copied.reverse ++ rest.drop 1) <
      decodedLength characters (copied.reverse ++ c :: rest) := by
  obtain ⟨before, rfl⟩ := List.head?_eq_some_iff.mp slash
  have less := @decodedLength_drop characters rest ended
  rw [List.reverse_cons, List.append_assoc, List.append_assoc, List.singleton_append,
    List.singleton_append, decodedLength_split (.inr rfl), decodedLength_split (.inr rfl),
    decodedLength_mark (.inl dot)]
  omega

theorem decodedLength_dotDot {copied rest : List Byte} {c : Byte} (last : copied.getLast? = some 0x2f)
    (dot : c = 0x2e) (second : rest.headD 0 = 0x2e) (ended : rest.tail.headD 0x2f = 0x2f) :
    decodedLength characters ((rewindSegment copied).reverse ++ rest.drop 2) <
      decodedLength characters (copied.reverse ++ c :: rest) := by
  cases rest with
  | nil => exact absurd second (by decide)
  | cons c' behind =>
    obtain ⟨taken, whole⟩ := rewindSegment_suffix copied
    obtain ⟨before, left⟩ := rewindSegment_head last
    have isCopied : copied = taken ++ 0x2f :: before := by rw [← left, whole]
    have secondDot : c' = 0x2e := second
    have less := @decodedLength_drop characters behind ended
    rw [left, isCopied, List.reverse_append, List.reverse_cons, List.append_assoc, List.append_assoc,
      List.append_assoc, List.singleton_append, List.singleton_append, decodedLength_split (.inr rfl),
      decodedLength_split (.inr rfl), decodedLength_split (.inl dot), decodedLength_mark (.inl secondDot)]
    rw [show (c' :: behind).drop 2 = behind.drop 1 from rfl]
    omega

/-- A segment of dots that is removed is missed when the path is decoded. -/
theorem copySegments_decodedLength {copied src : List Byte} (last : copied.getLast? = some 0x2f)
    (skip : Nat) :
    (copySegments skip copied src).reverse = copied.reverse ++ src.drop skip ∨
      decodedLength characters (copySegments skip copied src).reverse <
        decodedLength characters (copied.reverse ++ src.drop skip) := by
  induction src generalizing skip copied with
  | nil =>
    cases skip <;> exact .inl (by rw [copySegments, List.drop_nil, List.append_nil])
  | cons c rest ih =>
    cases skip with
    | succ skip => exact ih last skip
    | zero =>
      have put : copySegments 0 (c :: copied) rest = copySegments 0 copied (c :: rest) →
          (copySegments 0 copied (c :: rest)).reverse = copied.reverse ++ c :: rest ∨
            decodedLength characters (copySegments 0 copied (c :: rest)).reverse <
              decodedLength characters (copied.reverse ++ c :: rest) := by
        intro same
        have lastPut : (c :: copied).getLast? = some 0x2f := by
          rw [List.getLast?_cons, last]
          rfl
        have more := ih lastPut 0
        rw [same, List.drop_zero, List.reverse_cons, List.append_assoc, List.singleton_append] at more
        exact more
      have step {left : List Byte} (after : Nat) (isLeft : left.getLast? = some 0x2f)
          (same : copySegments after left rest = copySegments 0 copied (c :: rest))
          (shorter : decodedLength characters (left.reverse ++ rest.drop after) <
            decodedLength characters (copied.reverse ++ c :: rest)) :
          (copySegments 0 copied (c :: rest)).reverse = copied.reverse ++ c :: rest ∨
            decodedLength characters (copySegments 0 copied (c :: rest)).reverse <
              decodedLength characters (copied.reverse ++ c :: rest) := by
        rw [← same]
        cases ih isLeft after with
        | inl unchanged => exact .inr (by rw [unchanged]; exact shorter)
        | inr less => exact .inr (Nat.lt_trans less shorter)
      rw [List.drop_zero]
      by_cases segment : (decide (c = 0x2e) && decide (copied.head? = some 0x2f)) = true
      · have dot : c = 0x2e := by simpa using (Bool.and_eq_true_iff.mp segment).1
        have slash : copied.head? = some 0x2f := by simpa using (Bool.and_eq_true_iff.mp segment).2
        by_cases one : rest.headD 0x2f = 0x2f
        · apply step 1 last
          · rw [copySegments, if_pos segment, if_pos one]
          · exact decodedLength_dot slash dot one
        · by_cases two : (decide (rest.headD 0 = 0x2e) && decide (rest.tail.headD 0x2f = 0x2f)) = true
          · apply step 2 (rewindSegment_last last)
            · rw [copySegments, if_pos segment, if_neg one, if_pos two]
            · simp only [Bool.and_eq_true, decide_eq_true_eq] at two
              exact decodedLength_dotDot last dot two.1 two.2
          · apply put
            rw [copySegments, if_pos segment, if_neg one, if_neg two]
      · apply put
        rw [copySegments, if_neg segment]

/-- Paths that dots are removed from are told from what is left of them. -/
theorem decode_copyPathRemovingDots {path : List Byte} (slash : path.head? = some 0x2f) :
    decodeURLEscapeSequences characters (widen (copyPathRemovingDots path)) =
        decodeURLEscapeSequences characters (widen path) ↔
      copyPathRemovingDots path = path := by
  constructor
  · intro same
    obtain ⟨rest, rfl⟩ := List.head?_eq_some_iff.mp slash
    have copied := @copySegments_decodedLength characters [0x2f] rest rfl 0
    cases copied with
    | inl unchanged => exact unchanged
    | inr shorter =>
      have length := congrArg List.length same
      change decodedLength characters (copySegments 0 [0x2f] rest).reverse = _ at length
      exact absurd length (Nat.ne_of_lt shorter)
  · intro same
    rw [same]

end

end WkcBrowser.Url
