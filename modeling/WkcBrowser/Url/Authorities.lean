import WkcBrowser.Lib.Bytes
import WkcBrowser.Url.SecurityOrigin

/-! What a parsed URL has for its protocol, its host and its port, in terms of the text that was parsed. -/

namespace WkcBrowser.Url

open Lib Wtf

/-- The host before its escapes are decoded. -/
def KURL.rawHost (url : KURL) : Text :=
  url.substring url.hostStart (url.hostEnd - url.hostStart)

/-- The number that the digits after a colon stand for, 0 without digits. -/
def portNumber (digits : List Byte) : Nat :=
  if digits = [] then 0
  else
    match toIntegralType 0xffffffff false (widen digits) with
    | none => invalidPortNumber
    | some number => if number > maximumValidPortNumber then invalidPortNumber else number.toNat

theorem widen_append (a b : List Byte) : widen (a ++ b) = widen a ++ widen b := List.map_append

theorem take_widen (n : Nat) (a : List Byte) : (widen a).take n = widen (a.take n) :=
  List.map_take.symm

theorem drop_widen (n : Nat) (a : List Byte) : (widen a).drop n = widen (a.drop n) :=
  List.map_drop.symm

/-- A part of a text that begins with what is before the part and the part. -/
theorem substring_eq {url : KURL} {before middle whole : List Byte} (string : url.string = widen whole)
    (front : before ++ middle <+: whole) :
    url.substring before.length middle.length = widen middle := by
  obtain ⟨after, rfl⟩ := front
  rw [KURL.substring, string, drop_widen, take_widen, List.append_assoc, List.drop_left,
    List.take_left]

section
variable {url : List Byte} {parts : Parts}

theorem portEnd_leading : parts.portEnd <+: parts.fragmentEnd url := by
  unfold Parts.fragmentEnd Parts.queryEnd Parts.pathEnd
  simp only [List.append_assoc]
  exact List.prefix_append _ _

theorem scheme_prefix : parts.scheme <+: parts.fragmentEnd url := by
  refine List.IsPrefix.trans ?_ portEnd_leading
  unfold Parts.portEnd Parts.hostEnd Parts.hostStart Parts.passwordEnd Parts.userEnd Parts.userStart
  simp only [List.append_assoc]
  exact List.prefix_append _ _

theorem assemble_protocol : (KURL.assemble url parts).protocol = widen parts.scheme := by
  obtain ⟨after, whole⟩ : parts.scheme <+: parts.fragmentEnd url := scheme_prefix
  unfold KURL.protocol KURL.assemble
  dsimp only
  rw [take_widen, ← whole, List.take_left]

/-- Without an authority there is no host and no port either. -/
theorem empty_of_not_hasAuthority (notFile : parts.isFile = false)
    (none : ¬parts.hasAuthority = true) :
    parts.authority.host = [] ∧ parts.authority.port.getD [] = [] := by
  have all : (parts.haveNonHostAuthorityPart || parts.authority.host ≠ []) = false := by
    rw [← Bool.not_eq_true]
    unfold Parts.hasAuthority at none
    rwa [if_neg (by simp [notFile])] at none
  simp [Parts.haveNonHostAuthorityPart] at all
  exact ⟨all.2, all.1.2⟩

theorem hostEnd_eq (notFile : parts.isFile = false) :
    parts.hostEnd = parts.hostStart ++ parts.authority.host := by
  unfold Parts.hostEnd
  rw [notFile]
  by_cases has : parts.hasAuthority = true
  · simp [has]
  · simp [has, (empty_of_not_hasAuthority notFile has).1]

/-- The host begins where the URL says it does. -/
theorem assemble_hostStart : (KURL.assemble url parts).hostStart = parts.hostStart.length := by
  unfold KURL.hostStart KURL.assemble Parts.hostStart
  dsimp only
  by_cases same : parts.passwordEnd.length = parts.userStart.length
  · simp [same]
  · have has : parts.hasAuthority = true := by
      by_contra none
      simp [Parts.passwordEnd, Parts.userEnd, none] at same
    simp [same, has]

theorem assemble_rawHost (notFile : parts.isFile = false) :
    (KURL.assemble url parts).rawHost = widen parts.authority.host := by
  have ends : (KURL.assemble url parts).hostEnd =
      parts.hostStart.length + parts.authority.host.length := by
    change parts.hostEnd.length = _
    rw [hostEnd_eq notFile, List.length_append]
  have front : parts.hostStart ++ parts.authority.host <+: parts.fragmentEnd url := by
    rw [← hostEnd_eq notFile]
    exact (List.prefix_append _ _).trans portEnd_leading
  rw [KURL.rawHost, assemble_hostStart, ends, Nat.add_sub_cancel_left]
  exact substring_eq rfl front

theorem assemble_port (notFile : parts.isFile = false) :
    (KURL.assemble url parts).port = portNumber (parts.authority.port.getD []) := by
  have hostEnd : (KURL.assemble url parts).hostEnd = parts.hostEnd.length := rfl
  have portEnd : (KURL.assemble url parts).portEnd = parts.portEnd.length := rfl
  have front : parts.portEnd <+: parts.fragmentEnd url := portEnd_leading
  rw [KURL.port, hostEnd, portEnd]
  cases port : parts.authority.port with
  | none =>
    have same : parts.portEnd = parts.hostEnd := by simp [Parts.portEnd, port]
    rw [if_pos (.inl (by rw [same]))]
    rfl
  | some digits =>
    by_cases has : parts.hasAuthority = true
    · have longer : parts.portEnd = (parts.hostEnd ++ [0x3a]) ++ digits := by
        simp [Parts.portEnd, port, has]
      have length : parts.portEnd.length = parts.hostEnd.length + 1 + digits.length := by
        rw [longer, List.length_append, List.length_append, List.length_singleton]
      rw [length]
      by_cases none : digits = []
      · rw [none, if_pos (.inr rfl)]
        rfl
      · have some_digit := List.length_pos_iff.mpr none
        have text : (KURL.assemble url parts).substring (parts.hostEnd.length + 1) digits.length =
            widen digits := by
          rw [longer] at front
          have middle : (KURL.assemble url parts).substring _ _ = _ := substring_eq rfl front
          rwa [List.length_append, List.length_singleton] at middle
        have rest : parts.hostEnd.length + 1 + digits.length - parts.hostEnd.length - 1 =
            digits.length := by omega
        rw [if_neg (by omega), rest, text, portNumber, Option.getD_some]
        exact (if_neg none).symm
    · have empty := (empty_of_not_hasAuthority notFile has).2
      rw [port, Option.getD_some] at empty
      have same : parts.portEnd = parts.hostEnd := by simp [Parts.portEnd, port, has]
      rw [if_pos (.inl (by rw [same])), empty]
      rfl

end

/-! The digits of a number. -/

theorem digit_of_mem_toDigits {n : Nat} {c : Char} (listed : c ∈ Nat.toDigits 10 n) :
    48 ≤ c.toNat ∧ c.toNat ≤ 57 := by
  have digit := Nat.isDigit_of_mem_toDigits (by decide) (by decide) listed
  simp only [Char.isDigit, Bool.and_eq_true, decide_eq_true_eq] at digit
  exact digit

theorem digit_of_mem_number {n : Nat} {c : UChar} (member : c ∈ number n) : 0x30 ≤ c ∧ c ≤ 0x39 := by
  obtain ⟨char, listed, rfl⟩ := List.mem_map.mp member
  obtain ⟨low, high⟩ := digit_of_mem_toDigits listed
  constructor <;> rw [UInt16.le_iff_toNat_le] <;> simp [UInt16.toNat_ofNat'] <;> omega

theorem number_ne_nil (n : Nat) : number n ≠ [] := by
  unfold number
  rw [ne_eq, List.map_eq_nil_iff]
  exact Nat.toDigits_ne_nil

theorem value_number (n : Nat) :
    (number n).foldl (fun value c => value * 10 + (c.toNat - 0x30)) 0 = n := by
  have same : ∀ value : Nat, ∀ c ∈ Nat.toDigits 10 n,
      value * 10 + ((UInt16.ofNat c.toNat).toNat - 0x30) = 10 * value + (c.toNat - 48) := by
    intro value c listed
    obtain ⟨_, high⟩ := digit_of_mem_toDigits listed
    rw [UInt16.toNat_ofNat', Nat.mod_eq_of_lt (by omega), Nat.mul_comm]
  rw [number, List.foldl_map, List.foldl_ext _ _ 0 same]
  exact Nat.ofDigitChars_ten_toDigits

/-- Digits are nothing that is skipped before a number, and all of them are taken. -/
theorem digits_scan {text : Text} (some_digit : text ≠ []) (isDigit : ∀ c ∈ text, 0x30 ≤ c ∧ c ≤ 0x39) :
    text.takeWhile isSpaceOrNewline = [] ∧ text.dropWhile isSpaceOrNewline = text ∧
      text.head? ≠ some 0x2d ∧ text.head? ≠ some 0x2b ∧
      text.takeWhile (fun c => 0x30 ≤ c && c ≤ 0x39) = text := by
  have digits : text.takeWhile (fun c => 0x30 ≤ c && c ≤ 0x39) = text := by
    rw [List.takeWhile_eq_self_iff]
    intro c member
    obtain ⟨low, high⟩ := isDigit c member
    simp [low, high]
  obtain ⟨c, rest, split⟩ := List.exists_cons_of_ne_nil some_digit
  obtain ⟨low, high⟩ := isDigit c (split ▸ List.mem_cons_self)
  have no_space : isSpaceOrNewline c = false := by
    rw [isSpaceOrNewline]
    simp only [UInt16.le_iff_toNat_le, UInt16.toNat_ofNat, ← UInt16.toNat_inj] at low high ⊢
    simp
    omega
  have no_minus : c ≠ 0x2d := by
    rintro rfl
    exact absurd low (by decide)
  have no_plus : c ≠ 0x2b := by
    rintro rfl
    exact absurd low (by decide)
  refine ⟨?_, ?_, ?_, ?_, digits⟩
  · rw [split, List.takeWhile_cons_of_neg (by simp [no_space])]
  · rw [split, List.dropWhile_cons_of_neg (by simp [no_space])]
  · simp [split, no_minus]
  · simp [split, no_plus]

/-- The digits of a number are nothing that is skipped before a number, and they all are digits. -/
theorem number_scan (n : Nat) :
    (number n).takeWhile isSpaceOrNewline = [] ∧ (number n).dropWhile isSpaceOrNewline = number n ∧
      (number n).head? ≠ some 0x2d ∧ (number n).head? ≠ some 0x2b ∧
      (number n).takeWhile (fun c => 0x30 ≤ c && c ≤ 0x39) = number n :=
  digits_scan (number_ne_nil n) fun _ member => digit_of_mem_number member

/-- Digits are read unless their number is too large. -/
theorem toIntegralType_digits {text : Text} {integralMax : Nat} {isSigned : Bool} (some_digit : text ≠ [])
    (isDigit : ∀ c ∈ text, 0x30 ≤ c ∧ c ≤ 0x39) :
    toIntegralType integralMax isSigned text =
      let value := text.foldl (fun value c => value * 10 + (c.toNat - 0x30)) 0
      if value > integralMax then none else some (value : Int) := by
  obtain ⟨-, spaces, no_minus, no_plus, digits⟩ := digits_scan some_digit isDigit
  unfold toIntegralType
  dsimp only
  rw [spaces, decide_eq_false no_minus, decide_eq_false no_plus, Bool.and_false, Bool.or_false,
    if_neg Bool.false_ne_true, digits, if_neg some_digit, List.drop_length]
  rfl

/-- A number that is not too large is read back from its digits. -/
theorem toIntegralType_number {n integralMax : Nat} {isSigned : Bool} (small : n ≤ integralMax) :
    toIntegralType integralMax isSigned (number n) = some n := by
  rw [toIntegralType_digits (number_ne_nil n) fun _ member => digit_of_mem_number member]
  dsimp only
  rw [value_number, if_neg (Nat.not_lt.mpr small)]
  rfl

theorem toInt_number {n : Nat} (small : n ≤ 0x7fffffff) : toInt (number n) = some (n : Int) := by
  obtain ⟨none, spaces, no_minus, no_plus, digits⟩ := number_scan n
  unfold toInt
  dsimp only
  rw [none, spaces, decide_eq_false no_minus, decide_eq_false no_plus, Bool.or_false,
    if_neg Bool.false_ne_true, List.take_zero, List.length_nil, List.drop_zero, digits]
  exact toIntegralType_number small

/-! Which hosts the parser takes. -/

/-- A host as the parser takes it: characters of names, or an address in brackets. -/
def isHost (host : List Byte) : Bool :=
  host.all isHostnameChar ||
    host.head? = some 0x5b && host.getLast? = some 0x5d && host.tail.dropLast.all isIPv6Char &&
      1 < host.length

theorem parseHost_isHost {text host rest : List Byte} (parsed : parseHost text = some (host, rest)) :
    text = host ++ rest ∧ isHost host = true := by
  unfold parseHost at parsed
  by_cases bracket : text.head? = some 0x5b
  · rw [if_pos bracket] at parsed
    obtain ⟨inside, rfl⟩ := List.head?_eq_some_iff.mp bracket
    dsimp only [List.tail_cons] at parsed
    by_cases closed : (inside.dropWhile isIPv6Char).head? = some 0x5d
    · rw [if_pos closed] at parsed
      cases parsed
      obtain ⟨after, split⟩ := List.head?_eq_some_iff.mp closed
      have whole := List.takeWhile_append_dropWhile (p := isIPv6Char) (l := inside)
      have address : (inside.takeWhile isIPv6Char).all isIPv6Char = true :=
        List.all_takeWhile
      refine ⟨?_, ?_⟩
      · rw [split] at whole ⊢
        rw [List.tail_cons, List.cons_append, List.cons_append, List.append_assoc]
        rw [List.singleton_append, whole]
      · simp [isHost, List.getLast?_cons, address]
    · rw [if_neg closed] at parsed
      cases parsed
  · rw [if_neg bracket] at parsed
    cases parsed
    refine ⟨List.takeWhile_append_dropWhile.symm, ?_⟩
    rw [isHost, List.all_takeWhile, Bool.true_or]

theorem parseUserInfo_split {text user password rest : List Byte}
    (parsed : parseUserInfo text = some (user, password, rest)) :
    ∃ before, text = before ++ rest ∧ (before = [] ∨ before.getLast? = some 0x40) := by
  unfold parseUserInfo at parsed
  dsimp only at parsed
  by_cases marked : (text.dropWhile isUserInfoChar).head? = some 0x40
  · rw [if_pos marked] at parsed
    cases parsed
    obtain ⟨after, split⟩ := List.head?_eq_some_iff.mp marked
    have whole := List.takeWhile_append_dropWhile (p := isUserInfoChar) (l := text)
    refine ⟨text.takeWhile isUserInfoChar ++ [0x40], ?_, .inr (by simp)⟩
    rw [split] at whole ⊢
    rw [List.tail_cons, List.append_assoc, List.singleton_append, whole]
  · rw [if_neg marked] at parsed
    by_cases ended : (text.dropWhile isUserInfoChar).headD 0 = 0x5b ||
        isPathSegmentEndChar ((text.dropWhile isUserInfoChar).headD 0)
    · rw [if_pos ended] at parsed
      cases parsed
      exact ⟨[], rfl, .inl rfl⟩
    · rw [if_neg ended] at parsed
      cases parsed

/-- An authority begins with nothing or with what ends in its mark, and goes on with the host. -/
theorem parseAuthority_split {text rest : List Byte} {authority : Authority}
    (parsed : parseAuthority text = some (authority, rest)) :
    ∃ before after, text = before ++ authority.host ++ after ∧ isHost authority.host = true ∧
      (before = [] ∨ before.getLast? = some 0x40) := by
  unfold parseAuthority at parsed
  cases info : parseUserInfo text with
  | none =>
    rw [info] at parsed
    cases parsed
  | some found =>
    obtain ⟨user, password, fromHost⟩ := found
    rw [info] at parsed
    dsimp only at parsed
    obtain ⟨before, rfl, ending⟩ := parseUserInfo_split info
    cases named : parseHost fromHost with
    | none =>
      rw [named] at parsed
      cases parsed
    | some found =>
      obtain ⟨host, afterHost⟩ := found
      obtain ⟨rfl, isHost⟩ := parseHost_isHost named
      rw [named] at parsed
      dsimp only at parsed
      split at parsed
      · cases parsed
        exact ⟨before, afterHost, (List.append_assoc _ _ _).symm, isHost, ending⟩
      · cases parsed

theorem hostnameChar_facts {c : Byte} (isChar : isHostnameChar c = true) :
    isUserInfoChar c = true ∧ c ≠ 0x5b ∧ c ≠ 0x3a ∧ c ≠ 0x2f ∧ c ≤ 0x7f ∧ c ≠ 0 ∧ c ≠ 0x20 ∧
      c ≠ 0x5c := by
  have facts := forall_byte (fun c => !isHostnameChar c || (isUserInfoChar c && c ≠ 0x5b &&
    c ≠ 0x3a && c ≠ 0x2f && c ≤ 0x7f && c ≠ 0 && c ≠ 0x20 && c ≠ 0x5c)) (by decide) c
  simpa [isChar, and_assoc] using facts

theorem digit_facts {c : Byte} (isDigit : isASCIIDigit c = true) :
    isUserInfoChar c = true ∧ c ≠ 0x5d ∧ c ≠ 0x40 ∧ c ≤ 0x7f ∧ c ≠ 0 ∧ c ≠ 0x20 := by
  have facts := forall_byte (fun c => !isASCIIDigit c || (isUserInfoChar c && c ≠ 0x5d &&
    c ≠ 0x40 && c ≤ 0x7f && c ≠ 0 && c ≠ 0x20)) (by decide) c
  simpa [isDigit, and_assoc] using facts

theorem ipv6Char_facts {c : Byte} (isChar : isIPv6Char c = true) :
    c ≠ 0x2f ∧ c ≤ 0x7f ∧ c ≠ 0 ∧ c ≠ 0x20 ∧ c ≠ 0x5c ∧ c ≠ 0x5d := by
  have facts := forall_byte (fun c => !isIPv6Char c || (c ≠ 0x2f && c ≤ 0x7f && c ≠ 0 &&
    c ≠ 0x20 && c ≠ 0x5c && c ≠ 0x5d)) (by decide) c
  simpa [isChar, and_assoc] using facts

theorem isHost_cases {host : List Byte} (taken : isHost host = true) :
    host.all isHostnameChar = true ∨
      ∃ inside, host = 0x5b :: (inside ++ [0x5d]) ∧ inside.all isIPv6Char = true := by
  rw [isHost, Bool.or_eq_true] at taken
  obtain names | address := taken
  · exact .inl names
  · simp only [Bool.and_eq_true, decide_eq_true_eq] at address
    obtain ⟨⟨⟨first, last⟩, inside⟩, long⟩ := address
    obtain ⟨rest, rfl⟩ := List.head?_eq_some_iff.mp first
    obtain rfl | ⟨middle, c, rfl⟩ := List.eq_nil_or_concat rest
    · exact absurd long (by simp)
    · rw [List.concat_eq_append, ← List.cons_append, List.getLast?_concat] at last
      obtain rfl : c = 0x5d := Option.some.inj last
      refine .inr ⟨middle, by rw [List.concat_eq_append], ?_⟩
      rwa [List.tail_cons, List.concat_eq_append, List.dropLast_concat] at inside

/-- The characters of a host are none that the parser or the constructor treats in a special way. -/
theorem isHost_facts {host : List Byte} (taken : isHost host = true) :
    ∀ c ∈ host, c ≠ 0x2f ∧ c ≤ 0x7f ∧ c ≠ 0 ∧ c ≠ 0x20 ∧ c ≠ 0x5c := by
  intro c member
  obtain names | ⟨inside, rfl, address⟩ := isHost_cases taken
  · obtain ⟨-, -, -, facts⟩ := hostnameChar_facts (List.all_eq_true.mp names c member)
    exact facts
  · obtain rfl | later := List.mem_cons.mp member
    · decide
    · obtain middle | last := List.mem_append.mp later
      · obtain ⟨a, b, c, d, e, -⟩ := ipv6Char_facts (List.all_eq_true.mp address c middle)
        exact ⟨a, b, c, d, e⟩
      · rw [List.mem_singleton.mp last]
        decide

/-- A scan takes what it accepts and stops before what it does not. -/
theorem scan_stops {accepts : Byte → Bool} {taken rest : List Byte} (all : taken.all accepts = true)
    (stop : ∀ c ∈ rest.head?, accepts c = false) :
    (taken ++ rest).takeWhile accepts = taken ∧ (taken ++ rest).dropWhile accepts = rest := by
  have each := List.all_eq_true.mp all
  have refused : rest.takeWhile accepts = [] ∧ rest.dropWhile accepts = rest := by
    cases rest with
    | nil => exact ⟨rfl, rfl⟩
    | cons c rest =>
      have no : ¬accepts c = true := by simp [stop c rfl]
      exact ⟨List.takeWhile_cons_of_neg no, List.dropWhile_cons_of_neg no⟩
  rw [List.takeWhile_append_of_pos each, List.dropWhile_append_of_pos each, refused.1, refused.2,
    List.append_nil]
  exact ⟨rfl, rfl⟩

/-- A port as it is written: nothing, or a colon and digits. -/
def portText : Option (List Byte) → List Byte
  | none => []
  | some digits => 0x3a :: digits

/-- No scan of an authority goes on behind its end, and nothing of it begins there. -/
theorem pathSegmentEnd_facts {rest : List Byte} (ended : isPathSegmentEndChar (rest.headD 0) = true) :
    ∀ c ∈ rest.head?, isUserInfoChar c = false ∧ isHostnameChar c = false ∧ isASCIIDigit c = false ∧
      isIPv6Char c = false ∧ c ≠ 0x40 ∧ c ≠ 0x5b ∧ c ≠ 0x3a := by
  intro c first
  have head : rest.headD 0 = c := by rw [List.headD_eq_head?_getD, first, Option.getD_some]
  rw [head] at ended
  have facts := forall_byte (fun c => !isPathSegmentEndChar c || (!isUserInfoChar c &&
    !isHostnameChar c && !isASCIIDigit c && !isIPv6Char c && c ≠ 0x40 && c ≠ 0x5b && c ≠ 0x3a))
    (by decide) c
  simpa [ended, and_assoc] using facts

section
variable {host : List Byte} {port : Option (List Byte)} {rest : List Byte}

theorem parsePort_portText (digits : (port.getD []).all isASCIIDigit = true)
    (ended : isPathSegmentEndChar (rest.headD 0) = true) :
    parsePort (portText port ++ rest) = (port, rest) := by
  have behind := pathSegmentEnd_facts ended
  cases port with
  | none =>
    have noColon : rest.head? ≠ some 0x3a := fun colon => (behind _ colon).2.2.2.2.2.2 rfl
    rw [portText, List.nil_append, parsePort, if_neg noColon]
  | some ds =>
    obtain ⟨taken, dropped⟩ := @scan_stops isASCIIDigit _ rest digits
      fun c first => (behind c first).2.2.1
    rw [Option.getD_some] at taken dropped
    simp [portText, parsePort, taken, dropped]

theorem parseUserInfo_host (taken : isHost host = true)
    (digits : (port.getD []).all isASCIIDigit = true)
    (ended : isPathSegmentEndChar (rest.headD 0) = true) :
    parseUserInfo (host ++ portText port ++ rest) = some ([], [], host ++ portText port ++ rest) := by
  have behind := pathSegmentEnd_facts ended
  unfold parseUserInfo
  dsimp only
  obtain names | ⟨inside, rfl, -⟩ := isHost_cases taken
  · have all : (host ++ portText port).all isUserInfoChar = true := by
      rw [List.all_append, Bool.and_eq_true]
      constructor
      · rw [List.all_eq_true] at names ⊢
        exact fun c member => (hostnameChar_facts (names c member)).1
      · cases port with
        | none => rfl
        | some ds =>
          rw [portText, List.all_cons, Bool.and_eq_true]
          refine ⟨by decide, ?_⟩
          rw [List.all_eq_true] at digits ⊢
          exact fun c member => (digit_facts (digits c member)).1
    obtain ⟨-, dropped⟩ := @scan_stops isUserInfoChar _ rest all fun c first => (behind c first).1
    have noMark : rest.head? ≠ some 0x40 := fun mark => (behind _ mark).2.2.2.2.1 rfl
    rw [dropped, if_neg noMark, if_pos (by rw [ended, Bool.or_true])]
  · have dropped : (0x5b :: (inside ++ [0x5d]) ++ portText port ++ rest).dropWhile isUserInfoChar =
        0x5b :: (inside ++ [0x5d]) ++ portText port ++ rest :=
      List.dropWhile_cons_of_neg (by decide)
    rw [dropped, if_neg (by simp), if_pos (by simp)]

theorem parseHost_host (taken : isHost host = true)
    (ended : isPathSegmentEndChar (rest.headD 0) = true) :
    parseHost (host ++ portText port ++ rest) = some (host, portText port ++ rest) := by
  have behind := pathSegmentEnd_facts ended
  rw [List.append_assoc]
  unfold parseHost
  obtain names | ⟨inside, rfl, address⟩ := isHost_cases taken
  · have no_bracket : (host ++ (portText port ++ rest)).head? ≠ some 0x5b := by
      cases host with
      | nil =>
        cases port with
        | none => exact fun bracket => (behind _ bracket).2.2.2.2.2.1 rfl
        | some ds => simp [portText]
      | cons c host =>
        rw [List.all_cons, Bool.and_eq_true] at names
        simpa using (hostnameChar_facts names.1).2.1
    have stop : ∀ c ∈ (portText port ++ rest).head?, isHostnameChar c = false := by
      cases port with
      | none => exact fun c first => (behind c first).2.1
      | some ds =>
        rintro c ⟨⟩
        decide
    obtain ⟨scanned, left⟩ := scan_stops names stop
    rw [if_neg no_bracket, scanned, left]
  · have stop : ∀ c ∈ ([0x5d] ++ (portText port ++ rest)).head?, isIPv6Char c = false := by
      rintro c ⟨⟩
      decide
    obtain ⟨scanned, left⟩ := scan_stops address stop
    have tail : (0x5b :: (inside ++ [0x5d]) ++ (portText port ++ rest)).tail =
        inside ++ ([0x5d] ++ (portText port ++ rest)) := by simp
    rw [if_pos (by simp), tail, scanned, left]
    simp

/-- A host with a port behind it is all of an authority. -/
theorem parseAuthority_host (taken : isHost host = true)
    (digits : (port.getD []).all isASCIIDigit = true) :
    parseAuthority (host ++ portText port) = some ({ host, port }, []) := by
  have ended : isPathSegmentEndChar (([] : List Byte).headD 0) = true := by decide
  have info := parseUserInfo_host taken digits ended
  have named : parseHost (host ++ portText port ++ []) = some (host, portText port ++ []) :=
    parseHost_host taken ended
  have numbered := parsePort_portText digits ended
  rw [List.append_nil] at info named
  rw [parseAuthority, info]
  dsimp only
  rw [named]
  dsimp only
  rw [numbered]
  rfl

end

/-! What `splitURL` finds. -/

def isHTTPFamily (url : List Byte) : Bool :=
  matchLetters (ascii "http") url &&
    (url.getD 4 0 = 0x3a || matchLetter (url.getD 4 0) 0x73 && url.getD 5 0 = 0x3a)

/-- The text up to the authority, the authority, and what is behind it. -/
theorem splitURL_parts {url : List Byte} {parts : Parts} (split : splitURL url = some parts) :
    ∃ afterColon rest, url = parts.scheme ++ 0x3a :: afterColon ∧
      parts.scheme.all isSchemeChar = true ∧ isSchemeFirstChar (parts.scheme.headD 0) = true ∧
      splitAuthority (parts.protocolInHTTPFamily || parts.isFile) afterColon =
        some (parts.authority, parts.authorityText, rest) ∧
      splitPath rest = (parts.path, parts.query, parts.fragment) ∧
      parts.hierarchical = decide (afterColon.head? = some 0x2f) ∧
      parts.isFile = (decide (parts.scheme.length = 4) && matchLetters (ascii "file") url) ∧
      parts.protocolInHTTPFamily = isHTTPFamily url := by
  unfold splitURL at split
  by_cases first : isSchemeFirstChar (url.headD 0) = true
  · rw [if_neg (by rw [first]; exact Bool.false_ne_true)] at split
    dsimp only at split
    by_cases colon : (url.dropWhile isSchemeChar).head? = some 0x3a
    · rw [if_neg (not_not.mpr colon)] at split
      obtain ⟨afterColon, behind⟩ := List.head?_eq_some_iff.mp colon
      have whole := List.takeWhile_append_dropWhile (p := isSchemeChar) (l := url)
      rw [behind] at whole split
      rw [List.tail_cons] at split
      cases authority : splitAuthority (isHTTPFamily url || (decide ((url.takeWhile
          isSchemeChar).length = 4) && matchLetters (ascii "file") url)) afterColon with
      | none =>
        unfold isHTTPFamily at authority
        rw [authority] at split
        cases split
      | some found =>
        obtain ⟨found, authorityText, rest⟩ := found
        have authority' := authority
        unfold isHTTPFamily at authority'
        rw [authority'] at split
        dsimp only at split
        generalize paths : splitPath rest = pathParts at split
        obtain ⟨path, query, fragment⟩ := pathParts
        cases split
        have scheme : isSchemeFirstChar ((url.takeWhile isSchemeChar).headD 0) = true := by
          cases url with
          | nil => cases colon
          | cons c rest =>
            have isChar : isSchemeChar c = true := by
              simp [isSchemeChar, show isASCIIAlpha c = true from first]
            rw [List.takeWhile_cons, if_pos isChar]
            exact first
        exact ⟨afterColon, rest, whole.symm, List.all_takeWhile, scheme, authority, paths, rfl, rfl, rfl⟩
    · rw [if_pos colon] at split
      cases split
  · rw [Bool.not_eq_true] at first
    rw [first] at split
    cases split

/-! A URL of a scheme that needs an authority. -/

def webSchemes : List (List Byte) := [ascii "http", ascii "https", ascii "ftp"]

theorem forall_webSchemes {P : List Byte → Prop} (http : P (ascii "http")) (https : P (ascii "https"))
    (ftp : P (ascii "ftp")) : ∀ scheme ∈ webSchemes, P scheme :=
  List.forall_mem_cons.mpr ⟨http, List.forall_mem_cons.mpr ⟨https, List.forall_mem_singleton.mpr ftp⟩⟩

/-- A URL after its scheme. -/
def afterScheme (text : List Byte) : List Byte := 0x3a :: 0x2f :: 0x2f :: text

section
variable {scheme text : List Byte}

theorem scan_scheme (web : scheme ∈ webSchemes) :
    (scheme ++ afterScheme text).takeWhile isSchemeChar = scheme ∧
      (scheme ++ afterScheme text).dropWhile isSchemeChar = afterScheme text := by
  have all : ∀ scheme ∈ webSchemes, scheme.all isSchemeChar = true := by decide
  refine scan_stops (all scheme web) ?_
  rintro c ⟨⟩
  decide

theorem splitURL_web (web : scheme ∈ webSchemes) : ∃ family,
    splitURL (scheme ++ afterScheme text) =
      match splitAuthority family (0x2f :: 0x2f :: text) with
      | none => none
      | some (authority, authorityText, rest) =>
        some
          { scheme, hierarchical := true, isFile := false, protocolInHTTPFamily := family, authority,
            authorityText, path := (splitPath rest).1, query := (splitPath rest).2.1,
            fragment := (splitPath rest).2.2 } := by
  obtain ⟨taken, dropped⟩ := @scan_scheme scheme text web
  have first : isSchemeFirstChar ((scheme ++ afterScheme text).headD 0) = true := by
    have all : ∀ scheme ∈ webSchemes, ∀ text : List Byte,
        isSchemeFirstChar ((scheme ++ text).headD 0) = true := by
      simp only [webSchemes, List.forall_mem_cons]
      exact ⟨fun _ => rfl, fun _ => rfl, fun _ => rfl, fun _ inside => by cases inside⟩
    exact all scheme web _
  have notFile : (decide (scheme.length = 4) &&
      matchLetters (ascii "file") (scheme ++ afterScheme text)) = false := by
    have all : ∀ scheme ∈ webSchemes, ∀ text : List Byte,
        (decide (scheme.length = 4) && matchLetters (ascii "file") (scheme ++ text)) = false := by
      simp only [webSchemes, List.forall_mem_cons]
      refine ⟨fun _ => ?_, fun _ => rfl, fun _ => rfl, fun _ inside => by cases inside⟩
      simp [ascii, matchLetters, matchLetter]
      exact fun impossible => absurd impossible (by decide)
    exact all scheme web _
  unfold splitURL
  rw [if_neg (by simp only [first]; decide)]
  dsimp only
  rw [taken, dropped, if_neg (by simp [afterScheme]), notFile, Bool.or_false]
  exact ⟨_, rfl⟩

/-- The host of a valid URL is one of the text, up to what may be read as a port. -/
theorem host_of_valid (web : scheme ∈ webSchemes)
    (valid : (KURL.parse (scheme ++ afterScheme text)).isValid = true) :
    ∃ host, (KURL.parse (scheme ++ afterScheme text)).rawHost = widen host ∧
      (host = [] ∨ isHost host = true ∧ ∃ before after, text = before ++ host ++ after ∧
        (before = [] ∨ before.getLast? = some 0x40)) := by
  obtain ⟨family, split⟩ := @splitURL_web scheme text web
  unfold KURL.parse at valid ⊢
  rw [split] at valid ⊢
  cases found : splitAuthority family (0x2f :: 0x2f :: text) with
  | none =>
    rw [found] at valid
    cases valid
  | some parts =>
    obtain ⟨authority, authorityText, rest⟩ := parts
    refine ⟨authority.host, assemble_rawHost rfl, ?_⟩
    have drop : List.drop 2 (0x2f :: 0x2f :: text) = text := rfl
    rw [splitAuthority, if_pos (by simp), drop] at found
    cases parsed : parseAuthority text with
    | none =>
      rw [parsed] at found
      cases found
    | some result =>
      obtain ⟨inner, after⟩ := result
      rw [parsed] at found
      dsimp only at found
      split at found
      · cases found
        exact .inl rfl
      · cases found
        obtain ⟨before, behind, whole, taken, ending⟩ := parseAuthority_split parsed
        exact .inr ⟨taken, before, behind, whole, ending⟩

/-- A URL that is made of a scheme, a host and a port has these. -/
theorem parse_host (web : scheme ∈ webSchemes) {host : List Byte} (taken : isHost host = true)
    (some_host : host ≠ []) {port : Option (List Byte)}
    (digits : (port.getD []).all isASCIIDigit = true) :
    let url := KURL.parse (scheme ++ afterScheme (host ++ portText port))
    url.isValid = true ∧ url.protocol = widen scheme ∧ url.rawHost = widen host ∧
      url.port = portNumber (port.getD []) := by
  obtain ⟨family, split⟩ := @splitURL_web scheme (host ++ portText port) web
  have nonempty : host ++ portText port ≠ [] := fun none =>
    some_host (List.append_eq_nil_iff.mp none).1
  have found : splitAuthority family (0x2f :: 0x2f :: (host ++ portText port)) =
      some ({ host, port }, host ++ portText port, []) := by
    have drop : List.drop 2 (0x2f :: 0x2f :: (host ++ portText port)) = host ++ portText port := rfl
    rw [splitAuthority, if_pos (by simp), drop, parseAuthority_host taken digits]
    dsimp only
    rw [List.length_nil, Nat.sub_zero, List.take_length, if_neg (by simp [some_host])]
  dsimp only
  unfold KURL.parse
  rw [split, found]
  exact ⟨rfl, assemble_protocol, assemble_rawHost rfl, assemble_port rfl⟩

end

end WkcBrowser.Url
