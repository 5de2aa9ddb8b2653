import Mathlib.Data.List.Infix
import WkcBrowser.Url.Authorities

/-! When the texts that an origin is written as tell it from all others, and can be read back. -/

namespace WkcBrowser.Url

open Lib Wtf

/-- What is documented of UTF-8: a byte gives one unit at most, an ASCII character is a byte of its own,
and the bytes of other characters are no ASCII. -/
structure Characters.Lawful (characters : Characters) : Prop where
  decode_length : ∀ bytes, (characters.decodeUTF8 bytes).length ≤ bytes.length
  encode_nil : characters.encodeUTF8 [] = []
  encode_ascii : ∀ before c after, c ≤ 0x7f →
    characters.encodeUTF8 (before ++ c :: after) =
      characters.encodeUTF8 before ++ c.toUInt8 :: characters.encodeUTF8 after
  encode_other : ∀ text, (∀ c ∈ text, ¬c ≤ 0x7f) → ∀ b ∈ characters.encodeUTF8 text, ¬b ≤ 0x7f

section
variable {characters : Characters}

/-- Decoding never makes a text longer. -/
theorem length_decodeURLEscapeSequences (lawful : characters.Lawful) (text : Text) :
    (decodeURLEscapeSequences characters text).length ≤ text.length := by
  induction text using decodeURLEscapeSequences.induct characters with
  | case1 => simp [decodeURLEscapeSequences]
  | case2 c rest run none ih =>
    rw [decodeURLEscapeSequences]
    dsimp only
    rw [if_pos none, List.length_cons, List.length_cons]
    omega
  | case3 c rest run some_run ih =>
    have whole := escapedRun_length (c :: rest)
    have bound := lawful.decode_length (escapedRun (c :: rest)).1
    rw [decodeURLEscapeSequences]
    dsimp only
    rw [if_neg some_run, List.length_append]
    by_cases nothing : characters.decodeUTF8 (escapedRun (c :: rest)).1 = []
    · rw [if_pos nothing, List.length_take]
      omega
    · rw [if_neg nothing]
      omega

theorem length_lower (text : Text) : (lower characters text).length = text.length := by
  unfold lower
  split <;> rw [List.length_map]

/-! The characters of ASCII in a text and in its bytes. -/

theorem toUInt8_le_iff {c : UChar} (small : c ≤ 0x7f) : c.toUInt8 ≤ 0x7f := by
  rw [UInt16.le_iff_toNat_le] at small
  rw [UInt8.le_iff_toNat_le, UInt16.toNat_toUInt8]
  simp at small ⊢
  omega

theorem countP_encodeUTF8 (lawful : characters.Lawful) (text : Text) :
    (characters.encodeUTF8 text).countP (· ≤ 0x7f) = text.countP (· ≤ 0x7f) := by
  have others : ∀ text : Text, (∀ c ∈ text, ¬c ≤ 0x7f) →
      (characters.encodeUTF8 text).countP (· ≤ 0x7f) = 0 ∧ text.countP (· ≤ 0x7f) = 0 := by
    intro text none
    rw [List.countP_eq_zero, List.countP_eq_zero]
    refine ⟨fun b member => ?_, fun c member => ?_⟩
    · simpa using lawful.encode_other text none b member
    · simpa using none c member
  obtain ⟨n, length⟩ : ∃ n, text.length = n := ⟨_, rfl⟩
  induction n using Nat.strong_induction_on generalizing text with
  | _ n ih =>
    by_cases none : ∀ c ∈ text, ¬c ≤ 0x7f
    · rw [(others text none).1, (others text none).2]
    · -- The text splits at its first character of ASCII.
      obtain ⟨c, found⟩ : ∃ c, text.find? (· ≤ 0x7f) = some c := by
        rw [← Option.isSome_iff_exists, List.find?_isSome]
        push Not at none
        obtain ⟨c, member, small⟩ := none
        exact ⟨c, member, by simpa using small⟩
      obtain ⟨small, before, after, rfl, first⟩ := List.find?_eq_some_iff_append.mp found
      have high : ∀ d ∈ before, ¬d ≤ 0x7f := by simpa using first
      have small' : c ≤ 0x7f := by simpa using small
      have shorter : after.length < n := by
        rw [← length, List.length_append, List.length_cons]
        omega
      rw [lawful.encode_ascii before c after small', List.countP_append, List.countP_append,
        List.countP_cons, List.countP_cons, (others before high).1, (others before high).2,
        ih after.length shorter after rfl]
      simp [small', toUInt8_le_iff small']

/-! What the constructor of a URL gives to the parser. -/

theorem takeWhile_append_leading {α : Type} {accepts : α → Bool} {front : List α}
    (all : ∀ c ∈ front, accepts c = true) (rest : List α) :
    (front ++ rest).takeWhile accepts = front ++ rest.takeWhile accepts :=
  List.takeWhile_append_of_pos all

/-- A scan ends where it has to. -/
theorem takeWhile_before_stop {α : Type} {accepts : α → Bool} (front : List α) {c : α}
    (stop : accepts c = false) (rest : List α) :
    (front ++ c :: rest).takeWhile accepts <+: front := by
  rw [List.takeWhile_append]
  split
  · rw [List.takeWhile_cons_of_neg (by simp [stop]), List.append_nil]
  · exact List.takeWhile_prefix _

section
variable {scheme : List Byte}

theorem web_facts (web : scheme ∈ webSchemes) :
    (∀ c ∈ scheme, c ≠ 0 ∧ c ≤ 0x7f) ∧ scheme.head?.getD 0 ≠ 0x20 ∧ scheme ≠ [] ∧
      isSchemeFirstChar (scheme.headD 0) = true := by
  have all : ∀ scheme ∈ webSchemes, (∀ c ∈ scheme, c ≠ 0 ∧ c ≤ 0x7f) ∧
      scheme.head?.getD 0 ≠ 0x20 ∧ scheme ≠ [] ∧ isSchemeFirstChar (scheme.headD 0) = true := by
    refine forall_webSchemes ?_ ?_ ?_ <;> exact ⟨forall_mem_of_all rfl, by decide, by decide, by decide⟩
  exact all scheme web

/-- Cutting at a null byte and at spaces leaves a prefix of what is behind the scheme. -/
theorem trim_web (web : scheme ∈ webSchemes) (text : List Byte) : ∃ rest,
    cString (((scheme ++ afterScheme text).dropWhile (· = 0x20)).rdropWhile (· = 0x20)) =
        scheme ++ afterScheme rest ∧ rest <+: text ∧
      ((∀ c ∈ text, c ≠ 0) → text.getLast? ≠ some 0x20 → rest = text) := by
  obtain ⟨plain, head, some_scheme, -⟩ := web_facts web
  have start : (scheme ++ afterScheme text).dropWhile (· = 0x20) = scheme ++ afterScheme text := by
    cases scheme with
    | nil => exact absurd rfl some_scheme
    | cons c scheme => exact List.dropWhile_cons_of_neg (by simpa using head)
  have trimmed : (scheme ++ afterScheme text).rdropWhile (· = 0x20) =
      scheme ++ afterScheme (text.rdropWhile (· = 0x20)) := by
    have split : ∀ rest : List Byte,
        scheme ++ afterScheme rest = (scheme ++ [0x3a, 0x2f]) ++ [0x2f] ++ rest := by
      intro rest
      simp [afterScheme]
    rw [split, split, rdropWhile_append (by decide)]
  have cut : cString (scheme ++ afterScheme (text.rdropWhile (· = 0x20))) =
      scheme ++ afterScheme (cString (text.rdropWhile (· = 0x20))) := by
    unfold cString
    rw [takeWhile_append_leading (fun c member => by simpa using (plain c member).1)]
    rfl
  refine ⟨cString (text.rdropWhile (· = 0x20)), by rw [start, trimmed, cut], ?_, ?_⟩
  · exact (List.takeWhile_prefix _).trans (List.rdropWhile_prefix _ _)
  · intro noNull noSpace
    have kept : text.rdropWhile (· = 0x20) = text := by
      rw [List.rdropWhile_eq_self_iff]
      intro some_text last
      have space : text.getLast some_text = 0x20 := by simpa using last
      exact noSpace (by rw [List.getLast?_eq_some_getLast some_text, space])
    rw [kept, cString, List.takeWhile_eq_self_iff]
    intro c member
    simpa using noNull c member

/-- A text of a scheme that needs an authority is parsed as an absolute URL. -/
theorem create_absolute (web : scheme ∈ webSchemes) (rest : List Byte) :
    (let str := scheme ++ afterScheme rest
      let found := str.takeWhile isSchemeChar
      isSchemeFirstChar (str.headD 0) && (str.drop found.length).headD 0 = 0x3a) = true := by
  obtain ⟨-, -, some_scheme, first⟩ := web_facts web
  obtain ⟨taken, -⟩ := @scan_scheme scheme rest web
  have head : (scheme ++ afterScheme rest).headD 0 = scheme.headD 0 := by
    cases scheme with
    | nil => exact absurd rfl some_scheme
    | cons c scheme => rfl
  dsimp only
  rw [head, first, taken, List.drop_left]
  rfl

theorem narrow_widen (bytes : List Byte) : narrow (widen bytes) = bytes := by
  unfold narrow widen
  rw [List.map_map]
  exact (List.map_congr_left fun c _ => UInt8.toUInt8_toUInt16 c).trans (List.map_id bytes)

theorem widen_narrow {text : Text} (small : ∀ c ∈ text, c ≤ 0x7f) : widen (narrow text) = text := by
  unfold narrow widen
  rw [List.map_map]
  refine (List.map_congr_left fun c member => ?_).trans (List.map_id text)
  have bound := UInt16.le_iff_toNat_le.mp (small c member)
  rw [Function.comp_apply, id, ← UInt16.toNat_inj, UInt8.toNat_toUInt16, UInt16.toNat_toUInt8]
  simp at bound
  omega

/-- The text of a URL of a scheme. -/
def webText (scheme : List Byte) (text : Text) : Text := widen scheme ++ literal "://" ++ text

theorem narrow_webText (text : Text) :
    narrow (webText scheme text) = scheme ++ afterScheme (narrow text) := by
  have parts : narrow (webText scheme text) =
      narrow (widen scheme) ++ narrow (literal "://") ++ narrow text := by
    simp [webText, narrow]
  rw [parts, narrow_widen, literal, narrow_widen, List.append_assoc]
  rfl

theorem webText_small (web : scheme ∈ webSchemes) {text : Text} :
    (webText scheme text).all (· ≤ 0x7f) = text.all (· ≤ 0x7f) := by
  have all : ∀ scheme ∈ webSchemes, (widen scheme).all (· ≤ 0x7f) = true := by decide
  have mark : (literal "://").all (· ≤ 0x7f) = true := by decide
  rw [webText, List.all_append, List.all_append, all scheme web, mark]
  rfl

theorem webText_backslash (web : scheme ∈ webSchemes) {text : Text} :
    (webText scheme text).contains 0x5c = text.contains 0x5c := by
  have none : ∀ scheme ∈ webSchemes, (0x5c : UChar) ∉ widen scheme ++ literal "://" := by decide
  rw [Bool.eq_iff_iff, List.contains_iff_mem, List.contains_iff_mem, webText, List.mem_append]
  exact or_iff_right (none scheme web)

/-- What is written of ASCII characters that mean nothing special is parsed as it is. -/
theorem create_plain (web : scheme ∈ webSchemes) {text : Text} (small : text.all (· ≤ 0x7f) = true)
    (plain : ∀ c ∈ text, c ≠ 0x5c) (noNull : ∀ c ∈ narrow text, c ≠ 0)
    (noSpace : (narrow text).getLast? ≠ some 0x20) :
    KURL.create characters (webText scheme text) =
      KURL.parse (scheme ++ afterScheme (narrow text)) := by
  have none : text.contains 0x5c = false := by
    rw [← Bool.not_eq_true, List.contains_iff_mem]
    exact fun member => plain _ member rfl
  obtain ⟨rest, trimmed, -, same⟩ := trim_web web (narrow text)
  obtain rfl := same noNull noSpace
  unfold KURL.create
  rw [webText_backslash web, none, Bool.false_and, if_neg Bool.false_ne_true]
  dsimp only
  rw [webText_small web, small, if_pos rfl, narrow_webText, trimmed]
  exact if_pos (create_absolute web (narrow text))

/-! A text with a port, whatever its host is. -/

theorem substituteBackslashes_cons (c : UChar) (text : Text) :
    substituteBackslashes (c :: text) =
      if c ≠ 0x3f ∧ c ≠ 0x23 then
        (if c = 0x5c then 0x2f else c) :: substituteBackslashes text
      else c :: text := by
  unfold substituteBackslashes
  by_cases inPath : c ≠ 0x3f ∧ c ≠ 0x23
  · simp [inPath]
  · have ends : (decide (c ≠ 0x3f) && decide (c ≠ 0x23)) = false := by
      rw [← Bool.not_eq_true, Bool.and_eq_true, decide_eq_true_iff, decide_eq_true_iff]
      exact inPath
    rw [if_neg inPath, List.takeWhile_cons_of_neg (by rw [ends]; exact Bool.false_ne_true)]
    rfl

theorem substituteBackslashes_after {after : Text} (noSlash : ∀ c ∈ after, c ≠ 0x5c) (text : Text) :
    substituteBackslashes (text ++ after) = substituteBackslashes text ++ after := by
  have unchanged : substituteBackslashes after = after := by
    induction after with
    | nil => rfl
    | cons c after ih =>
      obtain ⟨first, rest⟩ := List.forall_mem_cons.mp noSlash
      rw [substituteBackslashes_cons, if_neg first, ih rest, ite_self]
  induction text with
  | nil => exact unchanged
  | cons c text ih =>
    rw [List.cons_append, substituteBackslashes_cons, substituteBackslashes_cons, ih]
    split <;> rfl

theorem substituteBackslashes_before {before : Text}
    (plain : ∀ c ∈ before, c ≠ 0x3f ∧ c ≠ 0x23 ∧ c ≠ 0x5c) (text : Text) :
    substituteBackslashes (before ++ text) = before ++ substituteBackslashes text := by
  induction before with
  | nil => rfl
  | cons c before ih =>
    obtain ⟨⟨noQuery, noFragment, noSlash⟩, rest⟩ := List.forall_mem_cons.mp plain
    rw [List.cons_append, substituteBackslashes_cons, if_pos ⟨noQuery, noFragment⟩, if_neg noSlash,
      ih rest, List.cons_append]

/-- What is substituted has as many characters, and the same where no slash is. -/
theorem substituteBackslashes_facts (text : Text) :
    (substituteBackslashes text).length = text.length ∧
      (substituteBackslashes text).all (· ≤ 0x7f) = text.all (· ≤ 0x7f) ∧
      (substituteBackslashes text).countP (· ≤ 0x7f) = text.countP (· ≤ 0x7f) ∧
      ((0x2f : UChar) ∉ substituteBackslashes text → substituteBackslashes text = text) := by
  induction text with
  | nil => exact ⟨rfl, rfl, rfl, fun _ => rfl⟩
  | cons c text ih =>
    obtain ⟨length, all, count, same⟩ := ih
    rw [substituteBackslashes_cons]
    by_cases inPath : c ≠ 0x3f ∧ c ≠ 0x23
    · rw [if_pos inPath]
      by_cases slash : c = 0x5c
      · rw [if_pos slash, slash]
        refine ⟨by simp [length], by simp [all], by simp [count], fun none => ?_⟩
        exact absurd List.mem_cons_self none
      · rw [if_neg slash]
        refine ⟨by simp [length], by simp [all], ?_, fun none => ?_⟩
        · rw [List.countP_cons, List.countP_cons, count]
        · rw [same fun member => none (List.mem_cons_of_mem c member)]
    · rw [if_neg inPath]
      exact ⟨rfl, rfl, rfl, fun _ => rfl⟩

theorem findHostname_web (web : scheme ∈ webSchemes) (host rest : Text) :
    ∃ start length, start + length ≤ host.length ∧
      findHostnameInHierarchicalURL (webText scheme (host ++ 0x3a :: rest)) =
        some ((widen scheme ++ literal "://").length + start, length) := by
  have facts : ∀ scheme ∈ webSchemes, (∀ c ∈ widen scheme, decide (c ≠ 0x3a) = true) ∧
      (decide ((widen scheme).headD 0x3a ≤ 0xff) &&
        isSchemeFirstChar ((widen scheme).headD 0x3a).toUInt8) = true ∧
      (widen scheme).tail.all (fun c => c ≤ 0xff && isSchemeChar c.toUInt8) = true := by
    refine forall_webSchemes ?_ ?_ ?_ <;> exact ⟨forall_mem_of_all rfl, by decide, by decide⟩
  obtain ⟨noColon, first, tail⟩ := facts scheme web
  have text : webText scheme (host ++ 0x3a :: rest) =
      widen scheme ++ 0x3a :: 0x2f :: 0x2f :: (host ++ 0x3a :: rest) := by
    rw [webText, List.append_assoc]
    rfl
  have found : (webText scheme (host ++ 0x3a :: rest)).takeWhile (· ≠ 0x3a) = widen scheme := by
    rw [text, takeWhile_append_leading noColon, List.takeWhile_cons_of_neg (by simp), List.append_nil]
  have mark : (literal "://").length = 3 := rfl
  have behind : (webText scheme (host ++ 0x3a :: rest)).drop ((widen scheme).length + 3) =
      host ++ 0x3a :: rest := by
    rw [webText, ← mark, ← List.length_append, List.drop_left]
  have slashes : (webText scheme (host ++ 0x3a :: rest)).getD ((widen scheme).length + 1) 0 = 0x2f ∧
      (webText scheme (host ++ 0x3a :: rest)).getD ((widen scheme).length + 2) 0 = 0x2f := by
    rw [text]
    simp [List.getD_eq_getElem?_getD]
  have long : ¬(widen scheme).length + 2 ≥ (webText scheme (host ++ 0x3a :: rest)).length := by
    rw [text]
    simp
  have stops := @takeWhile_before_stop _ (fun c : UChar =>
    !(decide (c = 0x3a) || decide (c = 0x23) || decide (c = 0x2f) || decide (c = 0x3f)))
    host 0x3a rfl rest
  have start : (widen scheme ++ literal "://").length = (widen scheme).length + 3 := by
    rw [List.length_append, mark]
  unfold findHostnameInHierarchicalURL
  dsimp only
  rw [found, behind, slashes.1, slashes.2, first, tail, start]
  simp only [long, ne_eq, not_true_eq_false, decide_false, Bool.or_false, Bool.not_true,
    Bool.false_eq_true, if_false]
  generalize authority : (host ++ 0x3a :: rest).takeWhile _ = name at stops
  have bound := stops.length_le
  by_cases whole : (name.takeWhile (· ≠ 0x40)).length = name.length
  · rw [if_pos (by simpa using whole)]
    exact ⟨0, name.length, by omega, rfl⟩
  · have shorter := (List.takeWhile_prefix (l := name) (· ≠ (0x40 : UChar))).length_le
    rw [if_neg (by simpa using whole)]
    exact ⟨(name.takeWhile (· ≠ 0x40)).length + 1,
      name.length - (name.takeWhile (· ≠ 0x40)).length - 1, by omega, by rfl⟩

/-- A name is encoded or left out within the host, and what is around the host stays. -/
theorem encodeHostnames_web (web : scheme ∈ webSchemes) (host rest : Text) :
    ∃ left, encodeHostnames (webText scheme (host ++ 0x3a :: rest)) =
        webText scheme (left ++ 0x3a :: rest) ∧
      left.countP (· ≤ 0x7f) ≤ host.countP (· ≤ 0x7f) := by
  have notMail : ∀ scheme ∈ webSchemes, ∀ text,
      protocolIs (webText scheme text) (literal "mailto") = false := by
    simp only [webSchemes, List.forall_mem_cons]
    exact ⟨fun _ => rfl, fun _ => rfl, fun _ => rfl, fun _ inside => by cases inside⟩
  obtain ⟨start, length, bound, found⟩ := findHostname_web web host rest
  have kept : (appendEncodedHostname ((host.drop start).take length)).countP (· ≤ 0x7f) ≤
      ((host.drop start).take length).countP (· ≤ 0x7f) := by
    unfold appendEncodedHostname
    split
    · exact le_rfl
    · exact Nat.zero_le _
  have whole : host = host.take start ++ ((host.drop start).take length ++
      host.drop (start + length)) := by
    rw [← List.drop_drop, List.take_append_drop, List.take_append_drop]
  refine ⟨host.take start ++ (appendEncodedHostname ((host.drop start).take length) ++
    host.drop (start + length)), ?_, ?_⟩
  · unfold encodeHostnames
    rw [notMail scheme web, if_neg Bool.false_ne_true, found]
    dsimp only
    rw [webText, List.take_length_add_append, Nat.add_assoc, List.drop_length_add_append,
      List.drop_length_add_append, List.take_append_of_le_length (by omega),
      List.drop_append_of_le_length (by omega), List.drop_append_of_le_length (by omega),
      List.take_append_of_le_length (by rw [List.length_drop]; omega)]
    simp only [webText, List.append_assoc]
  · calc _ = (host.take start).countP (· ≤ 0x7f) +
          ((appendEncodedHostname ((host.drop start).take length)).countP (· ≤ 0x7f) +
            (host.drop (start + length)).countP (· ≤ 0x7f)) := by
          rw [List.countP_append, List.countP_append]
      _ ≤ (host.take start).countP (· ≤ 0x7f) +
          (((host.drop start).take length).countP (· ≤ 0x7f) +
            (host.drop (start + length)).countP (· ≤ 0x7f)) := by omega
      _ = host.countP (· ≤ 0x7f) := by
          rw [← List.countP_append, ← List.countP_append, ← whole]

/-- Characters of ASCII are the bytes of their own. -/
theorem encode_small (lawful : characters.Lawful) {front : Text} (small : ∀ c ∈ front, c ≤ 0x7f)
    (text : Text) :
    characters.encodeUTF8 (front ++ text) = narrow front ++ characters.encodeUTF8 text := by
  induction front with
  | nil => rfl
  | cons c front ih =>
    obtain ⟨first, rest⟩ := List.forall_mem_cons.mp small
    have one := lawful.encode_ascii [] c (front ++ text) first
    rw [List.nil_append, lawful.encode_nil, List.nil_append, ih rest] at one
    exact one

theorem encode_webText (lawful : characters.Lawful) (web : scheme ∈ webSchemes) (left : Text)
    {rest : Text} (small : ∀ c ∈ rest, c ≤ 0x7f) :
    characters.encodeUTF8 (webText scheme (left ++ 0x3a :: rest)) =
      scheme ++ afterScheme (characters.encodeUTF8 left ++ 0x3a :: narrow rest) := by
  have mark : ∀ c ∈ widen scheme ++ literal "://", c ≤ 0x7f := by
    have all : ∀ scheme ∈ webSchemes, ∀ c ∈ widen scheme ++ literal "://", c ≤ 0x7f :=
      forall_webSchemes (forall_mem_of_all rfl) (forall_mem_of_all rfl) (forall_mem_of_all rfl)
    exact all scheme web
  have digits : characters.encodeUTF8 rest = narrow rest := by
    have whole := encode_small lawful small []
    rwa [List.append_nil, lawful.encode_nil, List.append_nil] at whole
  have front : narrow (widen scheme ++ literal "://") = scheme ++ [0x3a, 0x2f, 0x2f] := by
    have whole := @narrow_webText scheme []
    rwa [webText, List.append_nil] at whole
  rw [webText, encode_small lawful mark, lawful.encode_ascii left 0x3a rest (by decide), digits,
    front, List.append_assoc]
  rfl

theorem cString_web (web : scheme ∈ webSchemes) (text : List Byte) :
    cString (scheme ++ afterScheme text) = scheme ++ afterScheme (cString text) := by
  obtain ⟨plain, -, -, -⟩ := web_facts web
  unfold cString
  rw [takeWhile_append_leading (fun c member => by simpa using (plain c member).1)]
  rfl

/-- What is parsed of a host and a port, when the host may have any characters. -/
def Written (host rest : Text) (parsed : List Byte) : Prop :=
  ∃ hostBytes : List Byte, parsed <+: hostBytes ++ 0x3a :: narrow rest ∧
    hostBytes.countP (· ≤ 0x7f) ≤ host.countP (· ≤ 0x7f) ∧
    (host.all (· ≤ 0x7f) = true →
      hostBytes = narrow host ∨ hostBytes = narrow (substituteBackslashes host))

/-- The substitution changes the host or nothing. -/
theorem substituted_web (web : scheme ∈ webSchemes) (host : Text) {rest : Text}
    (noSlash : ∀ c ∈ rest, c ≠ 0x5c) (some_slash : Bool) : ∃ host',
      (if some_slash then substituteBackslashes (webText scheme (host ++ 0x3a :: rest))
        else webText scheme (host ++ 0x3a :: rest)) = webText scheme (host' ++ 0x3a :: rest) ∧
      (host' = host ∨ host' = substituteBackslashes host) ∧
      host'.all (· ≤ 0x7f) = host.all (· ≤ 0x7f) ∧
      host'.countP (· ≤ 0x7f) = host.countP (· ≤ 0x7f) := by
  have mark : ∀ scheme ∈ webSchemes, ∀ c ∈ widen scheme ++ literal "://",
      c ≠ 0x3f ∧ c ≠ 0x23 ∧ c ≠ 0x5c :=
    forall_webSchemes (forall_mem_of_all rfl) (forall_mem_of_all rfl) (forall_mem_of_all rfl)
  have later : ∀ c ∈ 0x3a :: rest, c ≠ 0x5c := List.forall_mem_cons.mpr ⟨by decide, noSlash⟩
  obtain ⟨-, all, count, -⟩ := substituteBackslashes_facts host
  split
  · refine ⟨substituteBackslashes host, ?_, .inr rfl, all, count⟩
    rw [webText, substituteBackslashes_before (mark scheme web), substituteBackslashes_after later]
    rfl
  · exact ⟨host, rfl, .inl rfl, rfl, rfl⟩

/-- The bytes of the text, before they are cut. -/
theorem bytes_web (lawful : characters.Lawful) (web : scheme ∈ webSchemes) (host : Text) {rest : Text}
    (small : ∀ c ∈ rest, c ≤ 0x7f) : ∃ hostBytes text,
      (if (webText scheme (host ++ 0x3a :: rest)).all (· ≤ 0x7f) then
          narrow (webText scheme (host ++ 0x3a :: rest))
        else cString (characters.encodeUTF8 (encodeHostnames
          (webText scheme (host ++ 0x3a :: rest))))) = scheme ++ afterScheme text ∧
      text <+: hostBytes ++ 0x3a :: narrow rest ∧
      hostBytes.countP (· ≤ 0x7f) ≤ host.countP (· ≤ 0x7f) ∧
      (host.all (· ≤ 0x7f) = true → hostBytes = narrow host) := by
  have restSmall : (0x3a :: rest).all (· ≤ 0x7f) = true := by
    rw [List.all_eq_true]
    intro c member
    simpa using List.forall_mem_cons.mpr ⟨by decide, small⟩ c member
  rw [webText_small web, List.all_append, restSmall, Bool.and_true]
  by_cases ascii : host.all (· ≤ 0x7f) = true
  · have bound : host.countP (· ≤ 0x7f) = (narrow host).length := by
      rw [narrow, List.length_map, List.countP_eq_length]
      simpa using ascii
    rw [if_pos ascii]
    refine ⟨narrow host, narrow host ++ 0x3a :: narrow rest, ?_, List.prefix_rfl, ?_, fun _ => rfl⟩
    · rw [narrow_webText]
      simp [narrow]
    · rw [bound]
      exact List.countP_le_length
  · obtain ⟨left, encoded, fewer⟩ := encodeHostnames_web web host rest
    rw [if_neg ascii]
    refine ⟨characters.encodeUTF8 left, cString (characters.encodeUTF8 left ++ 0x3a :: narrow rest),
      ?_, List.takeWhile_prefix _, ?_, fun all => absurd all ascii⟩
    · rw [encoded, encode_webText lawful web left small, cString_web web]
    · rw [countP_encodeUTF8 lawful]
      exact fewer

theorem create_written (lawful : characters.Lawful) (web : scheme ∈ webSchemes) (host : Text)
    {rest : Text} (small : ∀ c ∈ rest, c ≤ 0x7f) (noSlash : ∀ c ∈ rest, c ≠ 0x5c) :
    ∃ parsed, KURL.create characters (webText scheme (host ++ 0x3a :: rest)) =
        KURL.parse (scheme ++ afterScheme parsed) ∧ Written host rest parsed := by
  obtain ⟨host', rel, same, all, count⟩ := substituted_web web host noSlash
    ((webText scheme (host ++ 0x3a :: rest)).contains 0x5c &&
      !(protocolIs (webText scheme (host ++ 0x3a :: rest)) (literal "javascript") ||
        protocolIs (webText scheme (host ++ 0x3a :: rest)) (literal "data")))
  obtain ⟨hostBytes, text, bytes, front, fewer, plain⟩ := bytes_web lawful web host' small
  obtain ⟨parsed, trimmed, cut, -⟩ := trim_web web text
  refine ⟨parsed, ?_, hostBytes, cut.trans front, count ▸ fewer, fun ascii => ?_⟩
  · unfold KURL.create
    dsimp only
    rw [rel, bytes, trimmed]
    exact if_pos (create_absolute web parsed)
  · obtain rfl | rfl := same
    · exact .inl (plain ascii)
    · exact .inr (plain (all.trans ascii))

end

end

end WkcBrowser.Url
