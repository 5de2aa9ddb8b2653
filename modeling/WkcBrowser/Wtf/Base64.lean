import Mathlib.Data.List.DropRight
import WkcBrowser.Lib.Bytes
import WkcBrowser.Wtf.StringImpl

/-! Base64. The decoder fills its output with the six bits of each character and then moves them
together in place. -/

namespace WkcBrowser.Wtf.Base64

open Lib

def base64EncMap : List Byte := [
  0x41, 0x42, 0x43, 0x44, 0x45, 0x46, 0x47, 0x48,
  0x49, 0x4A, 0x4B, 0x4C, 0x4D, 0x4E, 0x4F, 0x50,
  0x51, 0x52, 0x53, 0x54, 0x55, 0x56, 0x57, 0x58,
  0x59, 0x5A, 0x61, 0x62, 0x63, 0x64, 0x65, 0x66,
  0x67, 0x68, 0x69, 0x6A, 0x6B, 0x6C, 0x6D, 0x6E,
  0x6F, 0x70, 0x71, 0x72, 0x73, 0x74, 0x75, 0x76,
  0x77, 0x78, 0x79, 0x7A, 0x30, 0x31, 0x32, 0x33,
  0x34, 0x35, 0x36, 0x37, 0x38, 0x39, 0x2B, 0x2F]

def base64DecMap : List Byte := [
  0x00, 0x00, 0x00, 0x00, 0x00, 0x00, 0x00, 0x00,
  0x00, 0x00, 0x00, 0x00, 0x00, 0x00, 0x00, 0x00,
  0x00, 0x00, 0x00, 0x00, 0x00, 0x00, 0x00, 0x00,
  0x00, 0x00, 0x00, 0x00, 0x00, 0x00, 0x00, 0x00,
  0x00, 0x00, 0x00, 0x00, 0x00, 0x00, 0x00, 0x00,
  0x00, 0x00, 0x00, 0x3E, 0x00, 0x00, 0x00, 0x3F,
  0x34, 0x35, 0x36, 0x37, 0x38, 0x39, 0x3A, 0x3B,
  0x3C, 0x3D, 0x00, 0x00, 0x00, 0x00, 0x00, 0x00,
  0x00, 0x00, 0x01, 0x02, 0x03, 0x04, 0x05, 0x06,
  0x07, 0x08, 0x09, 0x0A, 0x0B, 0x0C, 0x0D, 0x0E,
  0x0F, 0x10, 0x11, 0x12, 0x13, 0x14, 0x15, 0x16,
  0x17, 0x18, 0x19, 0x00, 0x00, 0x00, 0x00, 0x00,
  0x00, 0x1A, 0x1B, 0x1C, 0x1D, 0x1E, 0x1F, 0x20,
  0x21, 0x22, 0x23, 0x24, 0x25, 0x26, 0x27, 0x28,
  0x29, 0x2A, 0x2B, 0x2C, 0x2D, 0x2E, 0x2F, 0x30,
  0x31, 0x32, 0x33, 0x00, 0x00, 0x00, 0x00, 0x00]

/-- The character of six bits. -/
def encoded (bits : Byte) : Byte := base64EncMap.getD bits.toNat 0

/-- The six bits of a character. -/
def sextet (ch : Byte) : Byte := base64DecMap.getD ch.toNat 0

/-- `(x >> n) & mask` -/
def shr (x n mask : Byte) : Byte := x >>> n &&& mask

/-- `(x << n) & mask` -/
def shl (x n mask : Byte) : Byte := x <<< n &&& mask

def UINT_MAX : Nat := 2 ^ 32 - 1

def maxInputBufferSize : Nat := UINT_MAX / 77 * 76 / 4 * 3 - 2

/-- The loop over groups of three bytes and the tail. A line feed stands before each group that would
make a line too long. -/
def encodeGroups (insertLFs : Bool) (count : Nat) : List Byte → List Byte
  | [] => []
  | [a] =>
    let lineFeed : List Byte := if insertLFs ∧ 0 < count ∧ count % 76 = 0 then [0x0a] else []
    lineFeed ++ [encoded (shr a 2 0x3f), encoded (shl a 4 0x3f)]
  | [a, b] =>
    let lineFeed : List Byte := if insertLFs ∧ 0 < count ∧ count % 76 = 0 then [0x0a] else []
    lineFeed ++ [encoded (shr a 2 0x3f),
      encoded (shr b 4 0x0f ||| shl a 4 0x3f), encoded (shl b 2 0x3f)]
  | a :: b :: c :: data =>
    let lineFeed : List Byte := if insertLFs ∧ count ≠ 0 ∧ count % 76 = 0 then [0x0a] else []
    lineFeed ++ [encoded (shr a 2 0x3f),
      encoded (shr b 4 0x0f ||| shl a 4 0x3f),
      encoded (shr c 6 0x03 ||| shl b 2 0x3f), encoded (c &&& 0x3f)] ++
      encodeGroups insertLFs (if insertLFs then count + 4 else count) data

/-- Nothing comes out where more is written than the output was made for. -/
def base64Encode (data : List Byte) (insertLFs : Bool) : Option (List Byte) :=
  if data = [] then some []
  else if maxInputBufferSize < data.length then some []
  else
    let out_len := (data.length + 2) % 2 ^ 32 / 3 * 4 % 2 ^ 32
    let insertLFs := insertLFs && decide (76 < out_len)
    let out_len := if insertLFs then (out_len + (out_len - 1) / 76) % 2 ^ 32 else out_len
    let out := encodeGroups insertLFs 0 data
    if out_len < out.length then none
    else some (out ++ List.replicate (out_len - out.length) 0x3d)

/-- A write to the output. Outside there is nothing to write to. -/
def put (out : List Byte) (i : Nat) (value : Byte) : Option (List Byte) :=
  if i < out.length then some (out.set i value) else none

def isAlphabet (ch : Byte) : Bool :=
  (47 < ch ∧ ch < 58) ∨ (64 < ch ∧ ch < 91) ∨ (96 < ch ∧ ch < 123) ∨ ch = 0x2b ∨ ch = 0x2f

/-- The characters that the decoder takes: the alphabet, and the padding anywhere. -/
def isTaken (ch : Byte) : Bool := isAlphabet ch || ch == 0x3d

/-- The loop over the characters, which stops at one that is not taken. -/
def fill : List Byte → Nat → List Byte → Option (Option (List Byte))
  | [], _, out => some (some out)
  | ch :: data, idx, out =>
    if isTaken ch then do
      let out ← put out idx (sextet ch)
      fill data (idx + 1) out
    else some none

def upper (a b : Byte) : Byte := shl a 2 255 ||| shr b 4 0x03
def middle (b c : Byte) : Byte := shl b 4 255 ||| shr c 2 0x0f
def lower (c d : Byte) : Byte := shl c 6 255 ||| (d &&& 0x3f)

/-- Two neighbouring bytes of the output give one that is written to it. -/
def combine (both : Byte → Byte → Byte) (out : List Byte) (source target : Nat) :
    Option (List Byte) := do
  put out target (both (← out[source]?) (← out[source + 1]?))

/-- In the tail a byte is written only where the output still has one to come. -/
def combineWithin (outLen : Nat) (both : Byte → Byte → Byte) (out : List Byte) (source target : Nat) :
    Option (List Byte) :=
  if target < outLen then combine both out source target else some out

/-- The conversion of four bytes to three in the output itself, with the tail behind the loop. -/
def convert (outLen sidx didx : Nat) (out : List Byte) : Option (List Byte) :=
  if didx < outLen - 2 then do
    let out ← combine upper out sidx didx
    let out ← combine middle out (sidx + 1) (didx + 1)
    let out ← combine lower out (sidx + 2) (didx + 2)
    convert outLen (sidx + 4) (didx + 3) out
  else do
    let out ← combineWithin outLen upper out sidx didx
    let out ← combineWithin outLen middle out (sidx + 1) (didx + 1)
    some (if outLen < out.length then out.take outLen else out)
termination_by outLen - didx

/-- What `base64Decode` returns, with the output of a success. The whole is nothing where it reads or
writes outside the output. -/
def base64Decode (data : List Byte) : Option (Option (List Byte)) :=
  if UINT_MAX < data.length then some none
  else if data.length = 0 then some (some [])
  else do
    let data := data.rdropWhile (· == 0x3d)
    let len := data.length
    -- What `grow` leaves unset is written before it is read.
    let filled ← fill data 0 (List.replicate len 0)
    match filled with
    | none => some none
    | some out =>
      let outLen := len - (len + 3) % 2 ^ 32 / 4
      if outLen = 0 ∨ (outLen + 2) % 2 ^ 32 / 3 * 4 % 2 ^ 32 < len then some none
      else do
        let out ← convert outLen 0 0 out
        some (some out)

/-- Six bits each, put together by groups. -/
def joined : List Byte → List Byte
  | [] => []
  | [_] => []
  | [a, b] => [upper a b]
  | [a, b, c] => [upper a b, middle b c]
  | a :: b :: c :: d :: rest => upper a b :: middle b c :: lower c d :: joined rest

theorem length_joined (sextets : List Byte) : (joined sextets).length = sextets.length * 3 / 4 := by
  induction sextets using joined.induct with
  | case1 => rfl
  | case2 => simp [joined]
  | case3 => simp [joined]
  | case4 => simp [joined]
  | case5 a b c d rest ih =>
    simp only [joined, List.length_cons, ih]
    omega

theorem fill_eq (data done rest : List Byte) (fits : rest.length = data.length) :
    fill data done.length (done ++ rest) =
      some (if data.all isTaken then some (done ++ data.map sextet) else none) := by
  induction data generalizing done rest with
  | nil =>
    rw [List.length_eq_zero_iff.mp fits]
    rfl
  | cons ch data ih =>
    cases rest with
    | nil => cases fits
    | cons old rest =>
      have later := ih (done ++ [sextet ch]) rest (Nat.succ.inj fits)
      rw [List.length_append, List.length_singleton, List.append_assoc, List.singleton_append] at later
      rw [fill]
      split
      · rename_i taken
        have inside : done.length < (done ++ old :: rest).length := by
          rw [List.length_append, List.length_cons]
          omega
        rw [put, if_pos inside, Option.bind_eq_bind, Option.bind_some,
          List.set_append_right _ _ (Nat.le_refl _), Nat.sub_self, List.set_cons_zero, later,
          List.all_cons, taken, Bool.true_and, List.map_cons, List.append_assoc,
          List.singleton_append]
      · rename_i refused
        rw [List.all_cons, eq_false_of_ne_true refused, Bool.false_and]
        rfl

section
variable {out : List Byte} {sidx didx i : Nat}

theorem put_eq (inside : i < out.length) (value : Byte) : put out i value = some (out.set i value) :=
  if_pos inside

/-- A write in front of the read position appends to what is done. -/
theorem take_set (inside : didx < out.length) (value : Byte) :
    (out.set didx value).take (didx + 1) = out.take didx ++ [value] := by
  rw [List.take_add_one, List.take_set_of_le (Nat.le_refl _), List.getElem?_set_self inside]
  rfl

theorem drop_set (front : didx < i) (value : Byte) : (out.set didx value).drop i = out.drop i := by
  rw [List.drop_set, if_pos front]

theorem getElem?_of_drop {rest : List Byte} (unread : out.drop sidx = rest) (k : Nat) :
    out[sidx + k]? = rest[k]? := by
  rw [← unread, List.getElem?_drop]

theorem drop_succ {a : Byte} {rest : List Byte} (unread : out.drop i = a :: rest) :
    out.drop (i + 1) = rest := by
  rw [← List.tail_drop, unread, List.tail_cons]

/-- `shrink` where the output is longer. -/
theorem shrink_eq (outLen : Nat) : (if outLen < out.length then out.take outLen else out) =
    out.take outLen := by
  split
  · rfl
  · exact (List.take_of_length_le (by omega)).symm

theorem combine_eq (both : Byte → Byte → Byte) {a b : Byte} {rest : List Byte} {source target : Nat}
    (unread : out.drop source = a :: b :: rest) (before : target ≤ source) :
    ∃ out', combine both out source target = some out' ∧ out'.length = out.length ∧
      out'.take (target + 1) = out.take target ++ [both a b] ∧
      out'.drop (source + 1) = b :: rest := by
  have size := congrArg List.length unread
  rw [List.length_drop, List.length_cons] at size
  have first := getElem?_of_drop unread 0
  have second := getElem?_of_drop unread 1
  rw [Nat.add_zero] at first
  have inside : target < out.length := by omega
  refine ⟨out.set target (both a b), ?_, List.length_set, take_set inside _, ?_⟩
  · rw [combine, first, second]
    exact put_eq inside _
  · rw [drop_set (Nat.lt_succ_of_le before)]
    exact drop_succ unread

/-- The loop joins what it has not read yet to what it has written, and stays inside. -/
theorem convert_eq (rest : List Byte) (outLen : Nat)
    (unread : out.drop sidx = rest) (before : didx ≤ sidx)
    (enough : outLen = didx + (joined rest).length) :
    convert outLen sidx didx out = some (out.take didx ++ joined rest) := by
  induction rest using joined.induct generalizing sidx didx out with
  | case1 =>
    rw [joined, List.length_nil] at enough
    rw [convert, if_neg (by omega), combineWithin, if_neg (by omega), Option.bind_eq_bind,
      Option.bind_some, combineWithin, if_neg (by omega), Option.bind_some, shrink_eq, enough, joined,
      List.append_nil]
    rfl
  | case2 a =>
    rw [joined, List.length_nil] at enough
    rw [convert, if_neg (by omega), combineWithin, if_neg (by omega), Option.bind_eq_bind,
      Option.bind_some, combineWithin, if_neg (by omega), Option.bind_some, shrink_eq, enough, joined,
      List.append_nil]
    rfl
  | case3 a b =>
    rw [joined, List.length_singleton] at enough
    obtain ⟨out1, done1, length1, take1, drop1⟩ := combine_eq upper unread before
    rw [convert, if_neg (by omega), combineWithin, if_pos (by omega), done1, Option.bind_eq_bind,
      Option.bind_some, combineWithin, if_neg (by omega), Option.bind_some, shrink_eq, enough, take1,
      joined]
  | case4 a b c =>
    rw [joined, List.length_cons, List.length_singleton] at enough
    obtain ⟨out1, done1, length1, take1, drop1⟩ := combine_eq upper unread before
    obtain ⟨out2, done2, length2, take2, drop2⟩ :=
      combine_eq middle drop1 (Nat.succ_le_succ before)
    rw [convert, if_neg (by omega), combineWithin, if_pos (by omega), done1, Option.bind_eq_bind,
      Option.bind_some, combineWithin, if_pos (by omega), done2, Option.bind_some, shrink_eq, enough,
      take2, take1, joined, List.append_assoc, List.singleton_append]
  | case5 a b c d rest ih =>
    simp only [joined, List.length_cons] at enough
    obtain ⟨out1, done1, length1, take1, drop1⟩ := combine_eq upper unread before
    obtain ⟨out2, done2, length2, take2, drop2⟩ :=
      combine_eq middle drop1 (Nat.succ_le_succ before)
    obtain ⟨out3, done3, length3, take3, drop3⟩ :=
      combine_eq lower drop2 (Nat.succ_le_succ (Nat.succ_le_succ before))
    have later : convert outLen (sidx + 4) (didx + 3) out3 = some (out3.take (didx + 3) ++ joined rest) :=
      ih (drop_succ drop3) (by omega) (by omega)
    rw [convert, if_pos (by omega), done1, Option.bind_eq_bind, Option.bind_some, done2,
      Option.bind_some, done3, Option.bind_some, later, take3, take2, take1, joined]
    simp only [List.append_assoc, List.cons_append, List.nil_append]

end

/-- The text without its padding. -/
def strip (data : List Byte) : List Byte := data.rdropWhile (· == 0x3d)

/-- The lengths that the decoder converts. One character alone makes no byte, and the sums do not
overflow. -/
def Convertible (len : Nat) : Prop := 0 < len ∧ len % 4 ≠ 1 ∧ len < 2 ^ 32 - 3

instance (len : Nat) : Decidable (Convertible len) := inferInstanceAs (Decidable (_ ∧ _ ∧ _))

theorem outLen_eq {len : Nat} (convertible : len < 2 ^ 32 - 3) :
    len - (len + 3) % 2 ^ 32 / 4 = len * 3 / 4 := by
  rw [Nat.mod_eq_of_lt (by omega)]
  omega

/-- Near the largest number the sums overflow, and nothing is converted. -/
theorem refused_of_large {len : Nat} (large : 2 ^ 32 - 3 ≤ len) (small : len < 2 ^ 32) :
    (len - (len + 3) % 2 ^ 32 / 4 + 2) % 2 ^ 32 / 3 * 4 % 2 ^ 32 < len := by
  obtain rfl | rfl | rfl : len = 2 ^ 32 - 3 ∨ len = 2 ^ 32 - 2 ∨ len = 2 ^ 32 - 1 := by omega
  all_goals decide

theorem refused_iff {len : Nat} (small : len < 2 ^ 32) :
    (len - (len + 3) % 2 ^ 32 / 4 = 0 ∨
      (len - (len + 3) % 2 ^ 32 / 4 + 2) % 2 ^ 32 / 3 * 4 % 2 ^ 32 < len) ↔ ¬Convertible len := by
  unfold Convertible
  by_cases large : 2 ^ 32 - 3 ≤ len
  · exact ⟨fun _ fits => absurd fits.2.2 (Nat.not_lt.mpr large),
      fun _ => .inr (refused_of_large large small)⟩
  · rw [outLen_eq (Nat.lt_of_not_le large)]
    rw [Nat.mod_eq_of_lt (by omega : len * 3 / 4 + 2 < 2 ^ 32),
      Nat.mod_eq_of_lt (by omega : (len * 3 / 4 + 2) / 3 * 4 < 2 ^ 32)]
    have groups : len * 3 / 4 = 3 * (len / 4) + len % 4 * 3 / 4 := by omega
    have residues : len % 4 = 0 ∨ len % 4 = 1 ∨ len % 4 = 2 ∨ len % 4 = 3 := by omega
    rw [groups]
    rcases residues with residue | residue | residue | residue
    all_goals
      rw [residue]
      omega

theorem length_strip (data : List Byte) : (strip data).length ≤ data.length :=
  (List.rdropWhile_prefix (· == 0x3d) data).length_le

/-- What the decoder returns. It never leaves its output. -/
theorem base64Decode_eq (data : List Byte) :
    base64Decode data =
      some (if UINT_MAX < data.length then none
        else if data = [] then some []
        else if (strip data).all isTaken = true ∧ Convertible (strip data).length then
          some (joined ((strip data).map sextet))
        else none) := by
  rw [base64Decode]
  split
  · rfl
  · rename_i small
    have small' : (strip data).length < 2 ^ 32 := by
      have := length_strip data
      unfold UINT_MAX at small
      omega
    split
    · rename_i nothing
      rw [if_pos (List.eq_nil_of_length_eq_zero nothing)]
    · rename_i something
      rw [if_neg fun nothing => something (by rw [nothing, List.length_nil])]
      have filled := fill_eq (strip data) [] (List.replicate (strip data).length 0)
        List.length_replicate
      rw [List.length_nil, List.nil_append, List.nil_append] at filled
      change (do
        let filled ← fill (strip data) 0 (List.replicate (strip data).length 0)
        match filled with
        | none => some none
        | some out =>
          let outLen := (strip data).length - ((strip data).length + 3) % 2 ^ 32 / 4
          if outLen = 0 ∨ (outLen + 2) % 2 ^ 32 / 3 * 4 % 2 ^ 32 < (strip data).length then some none
          else do
            let out ← convert outLen 0 0 out
            some (some out)) = _
      rw [filled, Option.bind_eq_bind, Option.bind_some]
      by_cases taken : (strip data).all isTaken = true
      · rw [if_pos taken]
        dsimp only
        by_cases convertible : Convertible (strip data).length
        · have size := outLen_eq convertible.2.2
          have refused := not_iff_not.mpr (refused_iff small')
          rw [if_neg (refused.mpr (not_not.mpr convertible)), if_pos ⟨taken, convertible⟩]
          have whole := convert_eq ((strip data).map sextet) _
            (rfl : ((strip data).map sextet).drop 0 = _) (Nat.le_refl 0) rfl
          rw [Nat.zero_add, length_joined, List.length_map, ← size, List.take_zero,
            List.nil_append] at whole
          rw [whole]
          rfl
        · rw [if_pos ((refused_iff small').mpr convertible), if_neg fun both => convertible both.2]
      · rw [if_neg taken, if_neg fun both => taken both.1]

/-- Characters of the alphabet, with padding only behind them. -/
def OverAlphabet (data : List Byte) : Prop :=
  ∃ body padding, data = body ++ List.replicate padding 0x3d ∧ ∀ ch ∈ body, isAlphabet ch = true

theorem exists_padding (data : List Byte) :
    ∃ padding, data = strip data ++ List.replicate padding 0x3d := by
  induction data using List.reverseRecOn with
  | nil => exact ⟨0, rfl⟩
  | append_singleton data ch ih =>
    by_cases pad : ch = 0x3d
    · obtain ⟨padding, same⟩ := ih
      refine ⟨padding + 1, ?_⟩
      rw [strip, List.rdropWhile_concat_pos (· == 0x3d) _ _ (beq_iff_eq.mpr pad),
        List.replicate_succ', ← List.append_assoc, pad]
      exact congrArg (· ++ [0x3d]) same
    · refine ⟨0, ?_⟩
      rw [strip, List.rdropWhile_concat_neg (· == 0x3d) _ _ (by simpa using pad),
        List.replicate_zero, List.append_nil]

theorem strip_append (body : List Byte) (clean : 0x3d ∉ body) (padding : Nat) :
    strip (body ++ List.replicate padding 0x3d) = body := by
  have pads : ∀ ch ∈ List.replicate padding (0x3d : Byte), (ch == 0x3d) = true := by
    intro ch member
    rw [List.eq_of_mem_replicate member]
    rfl
  rw [strip, List.rdropWhile, List.reverse_append, List.reverse_replicate,
    List.dropWhile_append_of_pos pads]
  cases same : body.reverse with
  | nil => rw [List.dropWhile_nil, ← same, List.reverse_reverse]
  | cons ch rest =>
    have member : ch ∈ body := List.mem_reverse.mp (same ▸ List.mem_cons_self)
    have other : ¬(ch == 0x3d) = true := fun equal => clean (beq_iff_eq.mp equal ▸ member)
    rw [List.dropWhile_cons_of_neg (p := (· == 0x3d)) other, ← same, List.reverse_reverse]

theorem padding_not_isAlphabet : isAlphabet 0x3d = false := by decide

theorem overAlphabet_iff (data : List Byte) :
    OverAlphabet data ↔ ∀ ch ∈ strip data, isAlphabet ch = true := by
  constructor
  · rintro ⟨body, padding, rfl, all⟩
    have clean : 0x3d ∉ body := fun member =>
      Bool.false_ne_true (padding_not_isAlphabet.symm.trans (all _ member))
    rw [strip_append body clean]
    exact all
  · intro all
    obtain ⟨padding, same⟩ := exists_padding data
    exact ⟨strip data, padding, same, all⟩

/-- What the condition on an input says: padding inside the text is harmless where the text is refused
for something else. -/
def Guarded (data : List Byte) : Prop :=
  0x3d ∈ strip data →
    UINT_MAX < data.length ∨ (∃ ch ∈ strip data, isTaken ch = false) ∨
      ¬Convertible (strip data).length

theorem accepts_iff (data : List Byte) (body : List Byte) :
    base64Decode data = some (some body) →
      (data = [] ∧ body = []) ∨ (data.length ≤ UINT_MAX ∧ (strip data).all isTaken = true ∧
        Convertible (strip data).length) := by
  intro accepted
  rw [base64Decode_eq] at accepted
  have inner := Option.some.inj accepted
  split at inner
  · cases inner
  · split at inner
    · exact .inl ⟨‹_›, (Option.some.inj inner).symm⟩
    · split at inner
      · exact .inr ⟨by omega, ‹_ ∧ _›⟩
      · cases inner

/-- Only padding inside the text is taken wrongly. -/
theorem overAlphabet_of_accepts_iff (data : List Byte) :
    (∀ body, base64Decode data = some (some body) → OverAlphabet data) ↔ Guarded data := by
  constructor
  · intro good inside
    by_contra fine
    obtain ⟨small, taken, convertible⟩ :
        data.length ≤ UINT_MAX ∧ (∀ ch ∈ strip data, isTaken ch = true) ∧
          Convertible (strip data).length := by
      refine ⟨by_contra fun large => fine (.inl (by omega)), fun ch member => ?_, ?_⟩
      · by_contra refused
        exact fine (.inr (.inl ⟨ch, member, eq_false_of_ne_true refused⟩))
      · by_contra refused
        exact fine (.inr (.inr refused))
    have something : data ≠ [] := by
      rintro rfl
      cases inside
    have accepted := base64Decode_eq data
    rw [if_neg (by omega), if_neg something,
      if_pos ⟨List.all_eq_true.mpr taken, convertible⟩] at accepted
    have all := (overAlphabet_iff data).mp (good _ accepted) _ inside
    exact Bool.false_ne_true (padding_not_isAlphabet.symm.trans all)
  · intro guarded body accepted
    rw [overAlphabet_iff]
    rcases accepts_iff data body accepted with ⟨rfl, -⟩ | ⟨small, taken, convertible⟩
    · intro ch member
      cases member
    · intro ch member
      have both := List.all_eq_true.mp taken ch member
      rcases Bool.or_eq_true_iff.mp both with letter | pad
      · exact letter
      · rcases guarded (beq_iff_eq.mp pad ▸ member) with large | ⟨other, found, refused⟩ | short
        · omega
        · exact absurd (List.all_eq_true.mp taken other found) (by rw [refused]; decide)
        · exact absurd convertible short

/-- Six bits each, as the encoder takes them from its bytes. -/
def sextets : List Byte → List Byte
  | [] => []
  | [a] => [shr a 2 0x3f, shl a 4 0x3f]
  | [a, b] => [shr a 2 0x3f, shr b 4 0x0f ||| shl a 4 0x3f, shl b 2 0x3f]
  | a :: b :: c :: data =>
    shr a 2 0x3f :: (shr b 4 0x0f ||| shl a 4 0x3f) :: (shr c 6 0x03 ||| shl b 2 0x3f) ::
      (c &&& 0x3f) :: sextets data

theorem encodeGroups_eq (count : Nat) (data : List Byte) :
    encodeGroups false count data = (sextets data).map encoded := by
  induction data using sextets.induct with
  | case1 => rfl
  | case2 a => simp [encodeGroups, sextets]
  | case3 a b => simp [encodeGroups, sextets]
  | case4 a b c data ih => simp [encodeGroups, sextets, ih]

theorem length_sextets (data : List Byte) : (sextets data).length = (data.length * 4 + 2) / 3 := by
  induction data using sextets.induct with
  | case1 => rfl
  | case2 a => simp [sextets]
  | case3 a b => simp [sextets]
  | case4 a b c data ih =>
    simp only [sextets, List.length_cons, ih]
    omega

theorem or_and (x y mask : Byte) : (x ||| y) &&& mask = x &&& mask ||| y &&& mask := by
  apply UInt8.toBitVec_inj.mp
  ext i bound
  simp [Bool.and_or_distrib_right]

theorem shr_or (x y n mask : Byte) : shr (x ||| y) n mask = shr x n mask ||| shr y n mask := by
  rw [shr, UInt8.shiftRight_or, or_and, shr, shr]

theorem shl_or (x y n mask : Byte) : shl (x ||| y) n mask = shl x n mask ||| shl y n mask := by
  rw [shl, UInt8.shiftLeft_or, or_and, shl, shl]

/-- What each part of a byte comes back as. -/
theorem parts (x : Byte) :
    shl (shr x 2 0x3f) 2 255 ||| shr (shl x 4 0x3f) 4 0x03 = x ∧ shr (shr x 4 0x0f) 4 0x03 = 0 ∧
      shl (shr x 4 0x0f) 4 255 ||| shr (shl x 2 0x3f) 2 0x0f = x ∧ shl (shl x 4 0x3f) 4 255 = 0 ∧
      shr (shr x 6 0x03) 2 0x0f = 0 ∧ shl (shl x 2 0x3f) 6 255 = 0 ∧
      shl (shr x 6 0x03) 6 255 ||| (x &&& 0x3f &&& 0x3f) = x := by
  have all := forall_byte (fun x =>
    shl (shr x 2 0x3f) 2 255 ||| shr (shl x 4 0x3f) 4 0x03 = x ∧ shr (shr x 4 0x0f) 4 0x03 = 0 ∧
      shl (shr x 4 0x0f) 4 255 ||| shr (shl x 2 0x3f) 2 0x0f = x ∧ shl (shl x 4 0x3f) 4 255 = 0 ∧
      shr (shr x 6 0x03) 2 0x0f = 0 ∧ shl (shl x 2 0x3f) 6 255 = 0 ∧
      shl (shr x 6 0x03) 6 255 ||| (x &&& 0x3f &&& 0x3f) = x) (by decide) x
  exact of_decide_eq_true all

theorem upper_tail (a : Byte) : upper (shr a 2 0x3f) (shl a 4 0x3f) = a :=
  (parts a).1

theorem upper_sextets (a b : Byte) :
    upper (shr a 2 0x3f) (shr b 4 0x0f ||| shl a 4 0x3f) = a := by
  rw [upper, shr_or, (parts b).2.1, UInt8.zero_or]
  exact (parts a).1

theorem middle_tail (a b : Byte) :
    middle (shr b 4 0x0f ||| shl a 4 0x3f) (shl b 2 0x3f) = b := by
  rw [middle, shl_or, (parts a).2.2.2.1, UInt8.or_zero]
  exact (parts b).2.2.1

theorem middle_sextets (a b c : Byte) :
    middle (shr b 4 0x0f ||| shl a 4 0x3f) (shr c 6 0x03 ||| shl b 2 0x3f) = b := by
  rw [middle, shr_or, (parts c).2.2.2.2.1, UInt8.zero_or]
  exact middle_tail a b

theorem lower_sextets (b c : Byte) :
    lower (shr c 6 0x03 ||| shl b 2 0x3f) (c &&& 0x3f) = c := by
  rw [lower, shl_or, (parts b).2.2.2.2.2.1, UInt8.or_zero]
  exact (parts c).2.2.2.2.2.2

theorem joined_sextets (data : List Byte) : joined (sextets data) = data := by
  induction data using sextets.induct with
  | case1 => rfl
  | case2 a => rw [sextets, joined, upper_tail]
  | case3 a b => rw [sextets, joined, upper_sextets, middle_tail]
  | case4 a b c data ih =>
    rw [sextets, joined, upper_sextets, middle_sextets, lower_sextets, ih]

theorem six_bits (x : Byte) :
    shr x 2 0x3f &&& 0x3f = shr x 2 0x3f ∧ shr x 4 0x0f &&& 0x3f = shr x 4 0x0f ∧
      shr x 6 0x03 &&& 0x3f = shr x 6 0x03 ∧ shl x 4 0x3f &&& 0x3f = shl x 4 0x3f ∧
      shl x 2 0x3f &&& 0x3f = shl x 2 0x3f ∧ x &&& 0x3f &&& 0x3f = x &&& 0x3f := by
  have all := forall_byte (fun x =>
    shr x 2 0x3f &&& 0x3f = shr x 2 0x3f ∧ shr x 4 0x0f &&& 0x3f = shr x 4 0x0f ∧
      shr x 6 0x03 &&& 0x3f = shr x 6 0x03 ∧ shl x 4 0x3f &&& 0x3f = shl x 4 0x3f ∧
      shl x 2 0x3f &&& 0x3f = shl x 2 0x3f ∧ x &&& 0x3f &&& 0x3f = x &&& 0x3f) (by decide) x
  exact of_decide_eq_true all

theorem mem_sextets (data : List Byte) : ∀ x ∈ sextets data, x &&& 0x3f = x := by
  have join (a b : Byte) :
      (shr b 4 0x0f ||| shl a 4 0x3f) &&& 0x3f = shr b 4 0x0f ||| shl a 4 0x3f := by
    rw [or_and, (six_bits b).2.1, (six_bits a).2.2.2.1]
  have join' (b c : Byte) :
      (shr c 6 0x03 ||| shl b 2 0x3f) &&& 0x3f = shr c 6 0x03 ||| shl b 2 0x3f := by
    rw [or_and, (six_bits c).2.2.1, (six_bits b).2.2.2.2.1]
  induction data using sextets.induct with
  | case1 =>
    intro x member
    cases member
  | case2 a =>
    rw [sextets]
    simp only [List.forall_mem_cons]
    exact ⟨(six_bits a).1, (six_bits a).2.2.2.1, List.forall_mem_nil _⟩
  | case3 a b =>
    rw [sextets]
    simp only [List.forall_mem_cons]
    exact ⟨(six_bits a).1, join a b, (six_bits b).2.2.2.2.1, List.forall_mem_nil _⟩
  | case4 a b c data ih =>
    rw [sextets]
    simp only [List.forall_mem_cons]
    exact ⟨(six_bits a).1, join a b, join' b c, (six_bits c).2.2.2.2.2, ih⟩

/-- Six bits come back from their character, which is one of the alphabet. -/
theorem encoded_facts (x : Byte) :
    isAlphabet (encoded (x &&& 0x3f)) = true ∧ sextet (encoded (x &&& 0x3f)) = x &&& 0x3f := by
  have all := forall_byte (fun x => isAlphabet (encoded (x &&& 0x3f)) = true ∧
    sextet (encoded (x &&& 0x3f)) = x &&& 0x3f) (by decide) x
  exact of_decide_eq_true all

theorem map_sextet_encoded (data : List Byte) :
    ((sextets data).map encoded).map sextet = sextets data := by
  rw [List.map_map]
  refine (List.map_congr_left fun x member => ?_).trans (List.map_id _)
  have facts := encoded_facts x
  rw [mem_sextets data x member] at facts
  exact facts.2

theorem isAlphabet_encoded (data : List Byte) :
    ∀ ch ∈ (sextets data).map encoded, isAlphabet ch = true := by
  intro ch member
  obtain ⟨x, inside, rfl⟩ := List.mem_map.mp member
  have facts := encoded_facts x
  rw [mem_sextets data x inside] at facts
  exact facts.1

theorem bound_maxInputBufferSize : maxInputBufferSize = 3179391370 := by decide

/-- Without line feeds the encoder writes the characters and pads them to groups of four. -/
theorem base64Encode_eq (data : List Byte) (something : data ≠ [])
    (fits : data.length ≤ maxInputBufferSize) :
    ∃ padding, base64Encode data false =
        some ((sextets data).map encoded ++ List.replicate padding 0x3d) ∧
      (sextets data).length + padding = (data.length + 2) / 3 * 4 := by
  have bound := bound_maxInputBufferSize
  have size := length_sextets data
  rw [base64Encode, if_neg something, if_neg (by omega)]
  simp only [Bool.false_and, Bool.false_eq_true, if_false, encodeGroups_eq, List.length_map]
  rw [Nat.mod_eq_of_lt (by omega : data.length + 2 < 2 ^ 32),
    Nat.mod_eq_of_lt (by omega : (data.length + 2) / 3 * 4 < 2 ^ 32), if_neg (by omega)]
  exact ⟨_, rfl, by omega⟩

theorem decode_encode (data : List Byte) (something : data ≠ [])
    (fits : data.length ≤ maxInputBufferSize) :
    (base64Encode data false).bind base64Decode = some (some data) := by
  obtain ⟨padding, same, total⟩ := base64Encode_eq data something fits
  have bound := bound_maxInputBufferSize
  have size := length_sextets data
  have long := List.length_pos_iff.mpr something
  have letters := isAlphabet_encoded data
  have clean : 0x3d ∉ (sextets data).map encoded := fun member =>
    Bool.false_ne_true (padding_not_isAlphabet.symm.trans (letters _ member))
  have taken : ((sextets data).map encoded).all isTaken = true :=
    List.all_eq_true.mpr fun ch member => Bool.or_eq_true_iff.mpr (.inl (letters ch member))
  have convertible : Convertible ((sextets data).map encoded).length := by
    rw [List.length_map]
    unfold Convertible
    omega
  rw [same, Option.bind_some, base64Decode_eq, strip_append _ clean, if_neg, if_neg,
    if_pos ⟨taken, convertible⟩, map_sextet_encoded, joined_sextets]
  · intro nothing
    have := congrArg List.length nothing
    rw [List.length_append, List.length_map, List.length_nil] at this
    omega
  · rw [List.length_append, List.length_map, List.length_replicate, UINT_MAX]
    omega

/-- A vector comes back from its text unless the encoder returns nothing for its size, and the decoder
takes a wrong text exactly where padding stands inside a text that is fine otherwise. -/
theorem round_trip_and_accepts_iff (vector text : List Byte) :
    ((vector ≠ [] → (base64Encode vector false).bind base64Decode = some (some vector)) ∧
      base64Decode text ≠ none ∧
      (∀ body, base64Decode text = some (some body) → OverAlphabet text)) ↔
    vector.length ≤ maxInputBufferSize ∧ Guarded text := by
  have inside : base64Decode text ≠ none := by
    rw [base64Decode_eq]
    exact Option.some_ne_none _
  constructor
  · rintro ⟨back, -, accepts⟩
    refine ⟨?_, (overAlphabet_of_accepts_iff text).mp accepts⟩
    by_contra large
    have something : vector ≠ [] := by
      rintro rfl
      exact large (Nat.zero_le _)
    have lost := back something
    rw [base64Encode, if_neg something, if_pos (Nat.lt_of_not_le large), Option.bind_some] at lost
    have empty := base64Decode_eq []
    rw [if_neg (by decide), if_pos rfl] at empty
    rw [empty] at lost
    exact something (Option.some.inj (Option.some.inj lost)).symm
  · rintro ⟨fits, guarded⟩
    exact ⟨fun something => decode_encode vector something fits, inside,
      (overAlphabet_of_accepts_iff text).mpr guarded⟩

/-- Padding between two letters is decoded. -/
theorem not_accepts_overAlphabet :
    ¬∀ text body, base64Decode text = some (some body) → OverAlphabet text := by
  intro all
  have guarded := (overAlphabet_of_accepts_iff [0x41, 0x3d, 0x41, 0x41]).mp (all _)
  rcases guarded (by decide) with large | ⟨ch, member, refused⟩ | short
  · exact absurd large (by decide)
  · exact absurd refused (ne_false_of_eq_true
      (forall_mem_of_all (P := fun ch => isTaken ch = true) rfl ch member))
  · exact short (by decide)

end WkcBrowser.Wtf.Base64
