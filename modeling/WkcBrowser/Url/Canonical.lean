import WkcBrowser.Url.Authorities
import WkcBrowser.Url.DotRemoval

/-! The canonical text of an `http` URL, which is parsed into the same parts again. -/

namespace WkcBrowser.Url

open Lib Wtf

namespace Authority

variable (authority : Authority)

/-- The password with its mark. -/
def passwordText : List Byte :=
  if authority.password ≠ [] then 0x3a :: authority.password else []

/-- The user and the password with their marks. -/
def userInfo : List Byte :=
  authority.user ++ authority.passwordText ++
    if authority.user ≠ [] ∨ authority.password ≠ [] then [0x40] else []

def text : List Byte := authority.userInfo ++ authority.host ++ portText authority.port

/-- What `parseAuthority` takes. -/
structure Clean : Prop where
  user : (authority.user.all fun c => isUserInfoChar c && c ≠ 0x3a) = true
  password : authority.password.all isUserInfoChar = true
  host : isHost authority.host = true
  port : (authority.port.getD []).all isASCIIDigit = true

variable {authority} {rest : List Byte}

theorem Clean.parseUserInfo_text (clean : authority.Clean)
    (ended : isPathSegmentEndChar (rest.headD 0) = true) :
    parseUserInfo (authority.text ++ rest) =
      some (authority.user, authority.password, authority.host ++ portText authority.port ++ rest) := by
  unfold text userInfo
  by_cases none : authority.user = [] ∧ authority.password = []
  · rw [passwordText, none.1, none.2]
    exact parseUserInfo_host clean.host clean.port ended
  · have named : authority.user ≠ [] ∨ authority.password ≠ [] := not_and_or.mp none
    have user := List.all_eq_true.mp clean.user
    have password : authority.passwordText.all isUserInfoChar = true := by
      unfold passwordText
      split_ifs
      · rw [List.all_cons, clean.password]
        decide
      · rfl
    have chars : (authority.user ++ authority.passwordText).all isUserInfoChar = true := by
      rw [List.all_append, password, Bool.and_true]
      exact List.all_eq_true.mpr fun c member => (Bool.and_eq_true_iff.mp (user c member)).1
    have noColon : authority.user.all (fun c => decide (c ≠ 0x3a)) = true :=
      List.all_eq_true.mpr fun c member => (Bool.and_eq_true_iff.mp (user c member)).2
    have atColon : ∀ c ∈ authority.passwordText.head?, decide (c ≠ 0x3a) = false := by
      unfold passwordText
      split_ifs
      · rintro c ⟨⟩
        decide
      · rintro c ⟨⟩
    have atMark : ∀ c ∈ (0x40 :: (authority.host ++ portText authority.port ++ rest)).head?,
        isUserInfoChar c = false := by
      rintro c ⟨⟩
      decide
    obtain ⟨beforeColon, fromColon⟩ := scan_stops noColon atColon
    obtain ⟨beforeMark, fromMark⟩ := scan_stops chars atMark
    have whole : authority.user ++ authority.passwordText ++ [0x40] ++ authority.host ++
        portText authority.port ++ rest = authority.user ++ authority.passwordText ++
          0x40 :: (authority.host ++ portText authority.port ++ rest) := by
      simp
    have behindColon : authority.passwordText.tail = authority.password := by
      unfold passwordText
      split_ifs with some
      · rfl
      · exact (not_not.mp some).symm
    rw [if_pos named, whole]
    unfold parseUserInfo
    dsimp only
    rw [beforeMark, fromMark, List.head?_cons, if_pos rfl, beforeColon, fromColon, behindColon,
      List.tail_cons]

theorem Clean.parseAuthority_text (clean : authority.Clean)
    (ended : isPathSegmentEndChar (rest.headD 0) = true) :
    parseAuthority (authority.text ++ rest) = some (authority, rest) := by
  rw [parseAuthority, clean.parseUserInfo_text ended]
  dsimp only
  rw [parseHost_host clean.host ended]
  dsimp only
  rw [parsePort_portText clean.port ended, if_pos ended]

end Authority

theorem userInfoChar_facts {c : Byte} (isChar : isUserInfoChar c = true) : c ≠ 0 ∧ c ≠ 0x40 := by
  have facts := forall_byte (fun c => !isUserInfoChar c || (c ≠ 0 && c ≠ 0x40)) (by decide) c
  simpa [isChar] using facts

theorem Authority.Clean.noEnd {authority : Authority} (clean : authority.Clean) :
    0 ∉ authority.text := by
  have user : 0 ∉ authority.user := fun inside =>
    (userInfoChar_facts (Bool.and_eq_true_iff.mp (List.all_eq_true.mp clean.user _ inside)).1).1 rfl
  have password : 0 ∉ authority.passwordText := by
    unfold passwordText
    split_ifs
    · rw [List.mem_cons, not_or]
      exact ⟨by decide, fun inside =>
        (userInfoChar_facts (List.all_eq_true.mp clean.password _ inside)).1 rfl⟩
    · exact List.not_mem_nil
  have host : 0 ∉ authority.host := fun inside => (isHost_facts clean.host 0 inside).2.2.1 rfl
  have port : 0 ∉ portText authority.port := by
    have digits := clean.port
    cases shape : authority.port with
    | none => exact List.not_mem_nil
    | some port =>
      rw [shape] at digits
      rw [portText, List.mem_cons, not_or]
      exact ⟨by decide, fun inside => (digit_facts (List.all_eq_true.mp digits _ inside)).2.2.2.2.1 rfl⟩
  have mark : 0 ∉ if authority.user ≠ [] ∨ authority.password ≠ [] then [(0x40 : Byte)] else [] := by
    split_ifs <;> decide
  unfold text userInfo
  simp only [List.mem_append, not_or]
  exact ⟨⟨⟨⟨user, password⟩, mark⟩, host⟩, port⟩

/-- What `appendEscapingBadChars` leaves as it is. -/
def isKept (c : Byte) : Bool := c ≠ 0 && (!isBadChar c || c = 0x25 || c = 0x3f)

namespace Parts

def text (parts : Parts) : List Byte :=
  parts.scheme ++ afterScheme (parts.authority.text ++ parts.path ++ parts.query ++ parts.fragment)

/-- The parts of a canonical text. -/
structure IsWeb (parts : Parts) : Prop where
  hierarchical : parts.hierarchical = true
  notFile : parts.isFile = false
  family : parts.protocolInHTTPFamily = true
  scheme : parts.scheme.all isSchemeChar = true
  first : isSchemeFirstChar (parts.scheme.headD 0) = true
  http : isHTTPFamily (parts.scheme ++ [0x3a]) = true
  authority : parts.authority.Clean
  authorityText : parts.authorityText = parts.authority.text
  path : (parts.path.all fun c => isKept c && c ≠ 0x3f) = true
  slash : parts.path.head? = some 0x2f
  query : parts.query = [] ∨ ∃ query, parts.query = 0x3f :: query ∧ query.all isKept = true
  fragment : parts.fragment = [] ∨
    ∃ fragment, parts.fragment = 0x23 :: fragment ∧ fragment.all isKept = true

end Parts

theorem cString_noEnd (bytes : List Byte) : 0 ∉ cString bytes := by
  intro inside
  have notEnd := List.all_eq_true.mp (@List.all_takeWhile _ (fun c : Byte => decide (c ≠ 0)) bytes) 0 inside
  revert notEnd
  decide

theorem isKept_facts {c : Byte} (kept : isKept c = true) : c ≠ 0 ∧ c ≠ 0x23 := by
  have facts := forall_byte (fun c => !isKept c || (c ≠ 0 && c ≠ 0x23)) (by decide) c
  simpa [kept] using facts

theorem schemeChar_facts {c : Byte} (isChar : isSchemeChar c = true) : c ≠ 0x3a ∧ c ≠ 0 := by
  have facts := forall_byte (fun c => !isSchemeChar c || (c ≠ 0x3a && c ≠ 0)) (by decide) c
  simpa [isChar] using facts

/-- Whether a URL is one of `http` is said by its scheme. -/
theorem isHTTPFamily_scheme (scheme rest : List Byte) :
    isHTTPFamily (scheme ++ 0x3a :: rest) = isHTTPFamily (scheme ++ [0x3a]) := by
  have http : ascii "http" = [0x68, 0x74, 0x74, 0x70] := by decide
  unfold isHTTPFamily
  rw [http]
  match scheme with
  | [] => simp [matchLetters, show matchLetter 0x3a 0x68 = false from by decide]
  | [a] => simp [matchLetters, show matchLetter 0x3a 0x74 = false from by decide]
  | [a, b] => simp [matchLetters, show matchLetter 0x3a 0x74 = false from by decide]
  | [a, b, c] => simp [matchLetters, show matchLetter 0x3a 0x70 = false from by decide]
  | [a, b, c, d] => simp [matchLetters]
  | [a, b, c, d, e] => simp [matchLetters]
  | a :: b :: c :: d :: e :: f :: more => simp [matchLetters]

def isFileScheme (scheme : List Byte) : Bool :=
  scheme.length = 4 && matchLetters (ascii "file") scheme

/-- Whether a URL is one of `file` is said by its scheme. -/
theorem isFileScheme_append (scheme rest : List Byte) :
    (decide (scheme.length = 4) && matchLetters (ascii "file") (scheme ++ rest)) =
      isFileScheme scheme := by
  have file : ascii "file" = [0x66, 0x69, 0x6c, 0x65] := by decide
  unfold isFileScheme
  rw [file]
  by_cases four : scheme.length = 4
  · match scheme, four with
    | [a, b, c, d], _ => simp [matchLetters]
  · rw [decide_eq_false four, Bool.false_and, Bool.false_and]

/-- A URL is split behind the colon of its scheme. -/
theorem splitURL_scheme {scheme : List Byte} (chars : scheme.all isSchemeChar = true)
    (first : isSchemeFirstChar (scheme.headD 0) = true) (afterColon : List Byte) :
    splitURL (scheme ++ 0x3a :: afterColon) =
      match splitAuthority (isHTTPFamily (scheme ++ [0x3a]) || isFileScheme scheme) afterColon with
      | none => none
      | some (authority, authorityText, rest) =>
        some
          { scheme, hierarchical := decide (afterColon.head? = some 0x2f), isFile := isFileScheme scheme,
            protocolInHTTPFamily := isHTTPFamily (scheme ++ [0x3a]), authority, authorityText,
            path := (splitPath rest).1, query := (splitPath rest).2.1,
            fragment := (splitPath rest).2.2 } := by
  have stop : ∀ c ∈ (0x3a :: afterColon).head?, isSchemeChar c = false := by
    rintro c ⟨⟩
    decide
  obtain ⟨taken, dropped⟩ := scan_stops chars stop
  have firstChar : isSchemeFirstChar ((scheme ++ 0x3a :: afterColon).headD 0) = true := by
    cases scheme with
    | nil => cases first
    | cons c scheme => exact first
  have family := isHTTPFamily_scheme scheme afterColon
  have isFile := isFileScheme_append scheme (0x3a :: afterColon)
  unfold isHTTPFamily at family
  unfold splitURL
  rw [if_neg (by rw [firstChar]; exact Bool.false_ne_true)]
  dsimp only
  rw [taken, dropped, isFile, family, List.head?_cons, if_neg (not_not.mpr rfl), List.tail_cons]
  rfl

theorem notFile_of_family {url : List Byte} (family : isHTTPFamily url = true) :
    matchLetters (ascii "file") url = false := by
  have http := (Bool.and_eq_true_iff.mp family).1
  have letters : ascii "http" = [0x68, 0x74, 0x74, 0x70] ∧ ascii "file" = [0x66, 0x69, 0x6c, 0x65] := by
    decide
  rw [letters.1, matchLetters] at http
  rw [letters.2, matchLetters, Bool.and_eq_false_iff]
  have other := forall_byte (fun c => !matchLetter c 0x68 || !matchLetter c 0x66) (by decide)
    (url.headD 0)
  rw [(Bool.and_eq_true_iff.mp http).1] at other
  exact .inl (by simpa using other)

namespace Parts

variable {parts : Parts}

theorem IsWeb.splitPath_text (web : parts.IsWeb) :
    splitPath (parts.path ++ parts.query ++ parts.fragment) =
      (parts.path, parts.query, parts.fragment) := by
  have inPath : parts.path.all (fun c => decide (c ≠ 0x3f) && decide (c ≠ 0x23)) = true := by
    refine List.all_eq_true.mpr fun c member => ?_
    obtain ⟨kept, noMark⟩ := Bool.and_eq_true_iff.mp (List.all_eq_true.mp web.path c member)
    rw [noMark, Bool.true_and]
    exact decide_eq_true (isKept_facts kept).2
  have behindPath : ∀ c ∈ (parts.query ++ parts.fragment).head?,
      (decide (c ≠ 0x3f) && decide (c ≠ 0x23)) = false := by
    obtain none | ⟨query, marked, -⟩ := web.query
    · rw [none, List.nil_append]
      obtain none | ⟨fragment, marked, -⟩ := web.fragment
      · rw [none]
        rintro c ⟨⟩
      · rw [marked]
        rintro c ⟨⟩
        decide
    · rw [marked]
      rintro c ⟨⟩
      decide
  have behindQuery : ∀ c ∈ parts.fragment.head?, decide (c ≠ 0x23) = false := by
    obtain none | ⟨fragment, marked, -⟩ := web.fragment
    · rw [none]
      rintro c ⟨⟩
    · rw [marked]
      rintro c ⟨⟩
      decide
  obtain ⟨path, afterPath⟩ := scan_stops inPath behindPath
  have query : (if (parts.query ++ parts.fragment).head? = some 0x3f then
      (parts.query ++ parts.fragment).takeWhile (fun c => decide (c ≠ 0x23)) else []) = parts.query := by
    obtain none | ⟨query, marked, kept⟩ := web.query
    · rw [none, List.nil_append, if_neg]
      intro mark
      have noMark := behindQuery _ mark
      revert noMark
      decide
    · have inQuery : parts.query.all (fun c => decide (c ≠ 0x23)) = true := by
        rw [marked, List.all_cons]
        refine Bool.and_eq_true_iff.mpr ⟨by decide, List.all_eq_true.mpr fun c member => ?_⟩
        exact decide_eq_true (isKept_facts (List.all_eq_true.mp kept c member)).2
      rw [if_pos (by rw [marked]; rfl), (scan_stops inQuery behindQuery).1]
  unfold splitPath
  dsimp only
  rw [List.append_assoc, path, afterPath, query, List.drop_left]

theorem IsWeb.ended (web : parts.IsWeb) :
    isPathSegmentEndChar ((parts.path ++ parts.query ++ parts.fragment).headD 0) = true := by
  obtain ⟨rest, slash⟩ := List.head?_eq_some_iff.mp web.slash
  rw [slash]
  show isPathSegmentEndChar 0x2f = true
  decide

/-- A canonical text is parsed into its parts. -/
theorem IsWeb.splitURL_text (web : parts.IsWeb) : splitURL parts.text = some parts := by
  have drop : (0x2f :: 0x2f :: (parts.authority.text ++ parts.path ++ parts.query ++
      parts.fragment)).drop 2 = parts.authority.text ++ (parts.path ++ parts.query ++ parts.fragment) := by
    simp
  have authority : splitAuthority true (0x2f :: 0x2f :: (parts.authority.text ++ parts.path ++
      parts.query ++ parts.fragment)) =
        some (parts.authority, parts.authority.text, parts.path ++ parts.query ++ parts.fragment) := by
    rw [splitAuthority, if_pos (by simp), drop, web.authority.parseAuthority_text web.ended]
    dsimp only
    rw [if_neg (by simp), List.length_append, Nat.add_sub_cancel, List.take_left]
  have notFile : isFileScheme parts.scheme = false := by
    rw [← isFileScheme_append _ [0x3a], notFile_of_family web.http, Bool.and_false]
  rw [text, afterScheme, splitURL_scheme web.scheme web.first, web.http, Bool.true_or, authority]
  dsimp only
  rw [web.splitPath_text, ← web.authorityText, List.head?_cons, decide_eq_true rfl, notFile]
  cases parts
  cases web.hierarchical
  cases web.notFile
  cases web.family
  rfl

end Parts

/-! What is parsed is clean. -/

theorem parseUserInfo_clean {text user password rest : List Byte}
    (parsed : parseUserInfo text = some (user, password, rest)) :
    (user.all fun c => isUserInfoChar c && c ≠ 0x3a) = true ∧
      password.all isUserInfoChar = true ∧ rest <:+ text := by
  unfold parseUserInfo at parsed
  dsimp only at parsed
  have info := List.all_eq_true.mp (@List.all_takeWhile _ isUserInfoChar text)
  split_ifs at parsed
  · cases parsed
    refine ⟨List.all_eq_true.mpr fun c member => ?_, List.all_eq_true.mpr fun c member => ?_, ?_⟩
    · have chars := info c ((List.takeWhile_sublist _).subset member)
      have noColon := List.all_eq_true.mp List.all_takeWhile c member
      rw [chars, Bool.true_and]
      exact noColon
    · exact info c ((List.dropWhile_sublist _).subset (List.mem_of_mem_tail member))
    · exact (List.tail_suffix _).trans (List.dropWhile_suffix _)
  · cases parsed
    exact ⟨rfl, rfl, List.suffix_rfl⟩

theorem parsePort_clean (text : List Byte) :
    ((parsePort text).1.getD []).all isASCIIDigit = true ∧ (parsePort text).2 <:+ text := by
  unfold parsePort
  split_ifs
  · exact ⟨List.all_takeWhile, (List.dropWhile_suffix _).trans (List.tail_suffix _)⟩
  · exact ⟨rfl, List.suffix_rfl⟩

theorem parseAuthority_clean {text rest : List Byte} {authority : Authority}
    (parsed : parseAuthority text = some (authority, rest)) :
    authority.Clean ∧ isPathSegmentEndChar (rest.headD 0) = true ∧ rest <:+ text := by
  unfold parseAuthority at parsed
  cases info : parseUserInfo text with
  | none =>
    rw [info] at parsed
    cases parsed
  | some found =>
    obtain ⟨user, password, fromHost⟩ := found
    obtain ⟨userClean, passwordClean, behindInfo⟩ := parseUserInfo_clean info
    rw [info] at parsed
    dsimp only at parsed
    cases named : parseHost fromHost with
    | none =>
      rw [named] at parsed
      cases parsed
    | some found =>
      obtain ⟨host, afterHost⟩ := found
      obtain ⟨rfl, isHost⟩ := parseHost_isHost named
      obtain ⟨portClean, behindPort⟩ := parsePort_clean afterHost
      rw [named] at parsed
      dsimp only at parsed
      split_ifs at parsed with ended
      cases parsed
      have behindHost : afterHost <:+ host ++ afterHost := List.suffix_append host afterHost
      exact ⟨⟨userClean, passwordClean, isHost, portClean⟩, ended,
        (behindPort.trans behindHost).trans behindInfo⟩

/-- A host is only found in an authority behind two slashes. -/
theorem splitAuthority_clean {emptyAllowed : Bool} {afterColon authorityText rest : List Byte}
    {authority : Authority}
    (split : splitAuthority emptyAllowed afterColon = some (authority, authorityText, rest))
    (hosted : authority.host ≠ []) :
    authority.Clean ∧ isPathSegmentEndChar (rest.headD 0) = true ∧ rest <:+ afterColon ∧
      afterColon.head? = some 0x2f := by
  unfold splitAuthority at split
  split_ifs at split with slashes
  · cases parsed : parseAuthority (afterColon.drop 2) with
    | none =>
      rw [parsed] at split
      cases split
    | some found =>
      obtain ⟨clean, ended, behind⟩ := parseAuthority_clean parsed
      rw [parsed] at split
      dsimp only at split
      split_ifs at split
      · cases split
        exact absurd rfl hosted
      · cases split
        simp only [Bool.and_eq_true, decide_eq_true_eq] at slashes
        exact ⟨clean, ended, behind.trans (List.drop_suffix 2 afterColon), slashes.1⟩
  · cases split
    exact absurd rfl hosted

theorem appendEscapingBadChars_append (before after : List Byte) :
    appendEscapingBadChars (before ++ after) =
      appendEscapingBadChars before ++ appendEscapingBadChars after := List.flatMap_append

theorem appendEscapingBadChars_kept {text : List Byte} (noEnd : 0 ∉ text) :
    (appendEscapingBadChars text).all isKept = true := by
  refine List.all_eq_true.mpr fun c member => ?_
  obtain ⟨b, inText, written⟩ := List.mem_flatMap.mp member
  have kept := forall_byte (fun b => b = 0 || (appendEscapingBadChars [b]).all isKept)
    (by decide) b
  have notEnd : b ≠ 0 := fun same => noEnd (same ▸ inText)
  simp only [notEnd, decide_false, Bool.false_or] at kept
  refine List.all_eq_true.mp kept c ?_
  rw [appendEscapingBadChars, List.flatMap_singleton]
  exact written

theorem appendEscapingBadChars_noMark {text : List Byte} (noMark : 0x3f ∉ text) :
    (appendEscapingBadChars text).all (fun c => c ≠ 0x3f) = true := by
  refine List.all_eq_true.mpr fun c member => ?_
  obtain ⟨b, inText, written⟩ := List.mem_flatMap.mp member
  have kept := forall_byte (fun b => b = 0x3f || (appendEscapingBadChars [b]).all (fun c => c ≠ 0x3f))
    (by decide) b
  have notMark : b ≠ 0x3f := fun same => noMark (same ▸ inText)
  simp only [notMark, decide_false, Bool.false_or] at kept
  refine List.all_eq_true.mp kept c ?_
  rw [appendEscapingBadChars, List.flatMap_singleton]
  exact written

/-- What is kept is written as it is. -/
theorem appendEscapingBadChars_of_kept {text : List Byte} (kept : text.all isKept = true) :
    appendEscapingBadChars text = text := by
  induction text with
  | nil => rfl
  | cons c rest ih =>
    rw [List.all_cons, Bool.and_eq_true] at kept
    have same := forall_byte (fun c => !isKept c || appendEscapingBadChars [c] = [c])
      (by decide) c
    rw [kept.1, Bool.not_true, Bool.false_or, decide_eq_true_eq] at same
    rw [← List.singleton_append, appendEscapingBadChars_append, same, ih kept.2]

/-- A path ends before its first mark, and what is behind it begins with the mark. -/
theorem splitPath_clean {text path query fragment : List Byte}
    (split : splitPath text = (path, query, fragment))
    (ended : isPathSegmentEndChar (text.headD 0) = true) (noEnd : 0 ∉ text) :
    (∀ c ∈ path ++ query ++ fragment, c ≠ 0) ∧ 0x3f ∉ path ∧ (path = [] ∨ path.head? = some 0x2f) ∧
      (query = [] ∨ query.head? = some 0x3f) := by
  have isPath : text.takeWhile (fun c => decide (c ≠ 0x3f) && decide (c ≠ 0x23)) = path :=
    congrArg Prod.fst split
  have isQuery : (if (text.dropWhile fun c => decide (c ≠ 0x3f) && decide (c ≠ 0x23)).head? = some 0x3f
      then (text.dropWhile fun c => decide (c ≠ 0x3f) && decide (c ≠ 0x23)).takeWhile (· ≠ 0x23)
      else []) = query :=
    congrArg (fun parts => parts.2.1) split
  have isFragment : (text.dropWhile fun c => decide (c ≠ 0x3f) && decide (c ≠ 0x23)).drop query.length =
      fragment := by
    rw [← isQuery]
    exact congrArg (fun parts => parts.2.2) split
  have afterPath : ∀ c ∈ text.dropWhile fun c => decide (c ≠ 0x3f) && decide (c ≠ 0x23), c ∈ text :=
    fun c member => (List.dropWhile_sublist _).subset member
  refine ⟨?_, ?_, ?_, ?_⟩
  · rintro c member rfl
    rw [List.mem_append, List.mem_append] at member
    obtain (inPath | inQuery) | inFragment := member
    · rw [← isPath] at inPath
      exact noEnd ((List.takeWhile_sublist _).subset inPath)
    · rw [← isQuery] at inQuery
      split_ifs at inQuery
      · exact noEnd (afterPath 0 ((List.takeWhile_sublist _).subset inQuery))
      · cases inQuery
    · rw [← isFragment] at inFragment
      exact noEnd (afterPath 0 ((List.drop_sublist _ _).subset inFragment))
  · intro mark
    rw [← isPath] at mark
    have notMark := List.all_eq_true.mp (@List.all_takeWhile _ _ text) _ mark
    revert notMark
    decide
  · cases text with
    | nil => exact .inl isPath.symm
    | cons c rest =>
      by_cases marked : (decide (c ≠ 0x3f) && decide (c ≠ 0x23)) = true
      · have facts := forall_byte (fun c => !isPathSegmentEndChar c || c = 0 || c = 0x3f || c = 0x23 ||
          c = 0x2f) (by decide) c
        have notEnd : c ≠ 0 := fun same => noEnd (same ▸ List.mem_cons_self)
        rw [Bool.and_eq_true, decide_eq_true_eq, decide_eq_true_eq] at marked
        rw [show isPathSegmentEndChar c = true from ended] at facts
        simp only [notEnd, marked.1, marked.2, Bool.not_true, decide_false, Bool.false_or,
          decide_eq_true_eq] at facts
        rw [← isPath, List.takeWhile_cons, if_pos (by simp [marked]), facts]
        exact .inr rfl
      · rw [← isPath, List.takeWhile_cons, if_neg marked]
        exact .inl rfl
  · split_ifs at isQuery with mark
    · obtain ⟨rest, behind⟩ := List.head?_eq_some_iff.mp mark
      rw [← isQuery, behind, List.takeWhile_cons, if_pos (by decide)]
      exact .inr rfl
    · exact .inl isQuery.symm

namespace Parts

variable (url : List Byte) (parts : Parts)

/-- The path without its dots. -/
def plainPath : List Byte :=
  if !parts.hierarchical || !hasSlashDotOrDotDot url then parts.path
  else copyPathRemovingDots parts.path

def canonicalPath : List Byte :=
  (if parts.protocolInHTTPFamily && parts.hierarchical && parts.path = [] then [0x2f] else []) ++
    appendEscapingBadChars (parts.plainPath url)

/-- The parts as the canonical text has them. -/
def canonical : Parts :=
  { parts with
    authorityText := parts.authority.text
    path := parts.canonicalPath url
    query := appendEscapingBadChars parts.query
    fragment :=
      if parts.fragment ≠ [] then 0x23 :: appendEscapingBadChars parts.fragment.tail else [] }

variable {url parts}

theorem mem_plainPath {b : Byte} (member : b ∈ parts.plainPath url) : b ∈ parts.path := by
  unfold plainPath at member
  split_ifs at member
  · exact member
  · exact mem_copyPathRemovingDots member

/-- The parts of an `http` URL with a host. -/
theorem canonical_isWeb (split : splitURL url = some parts) (noEnd : 0 ∉ url)
    (family : parts.protocolInHTTPFamily = true) (hosted : parts.authority.host ≠ []) :
    (parts.canonical url).IsWeb := by
  obtain ⟨afterColon, rest, rfl, scheme, first, authority, paths, hierarchical, isFile, isFamily⟩ :=
    splitURL_parts split
  obtain ⟨clean, ended, behind, slash⟩ := splitAuthority_clean authority hosted
  rw [slash, decide_eq_true rfl] at hierarchical
  have noEndRest : 0 ∉ rest := by
    intro inside
    exact noEnd (List.mem_append_right _ (List.mem_cons_of_mem _ (behind.subset inside)))
  obtain ⟨noEndParts, noMark, pathSlash, queryMark⟩ := splitPath_clean paths ended noEndRest
  have noEndPath : 0 ∉ parts.path := fun inside =>
    noEndParts 0 (List.mem_append_left _ (List.mem_append_left _ inside)) rfl
  have http : isHTTPFamily (parts.scheme ++ 0x3a :: afterColon) = true := by rw [← isFamily, family]
  refine
    { hierarchical
      notFile := by rw [← Bool.and_false, ← notFile_of_family http]; exact isFile
      family, scheme, first
      http := by rw [← isHTTPFamily_scheme _ afterColon]; exact http
      authority := clean
      authorityText := rfl
      path := ?_, slash := ?_, query := ?_, fragment := ?_ }
  · refine List.all_eq_true.mpr fun c member => ?_
    cases List.mem_append.mp member with
    | inl added =>
      split_ifs at added
      · rw [List.mem_singleton.mp added]
        decide
      · cases added
    | inr copied =>
      have noEndPlain : 0 ∉ parts.plainPath (parts.scheme ++ 0x3a :: afterColon) :=
        fun inside => noEndPath (mem_plainPath inside)
      have noMarkPlain : 0x3f ∉ parts.plainPath (parts.scheme ++ 0x3a :: afterColon) :=
        fun inside => noMark (mem_plainPath inside)
      have kept := appendEscapingBadChars_kept noEndPlain
      have plain := appendEscapingBadChars_noMark noMarkPlain
      rw [List.all_eq_true.mp kept c copied, Bool.true_and]
      exact List.all_eq_true.mp plain c copied
  · show (parts.canonicalPath _).head? = some 0x2f
    unfold canonicalPath
    obtain none | slash := pathSlash
    · rw [none, family, hierarchical]
      rfl
    · have some : parts.path ≠ [] := by
        intro none
        rw [none] at slash
        cases slash
      have left : (parts.plainPath (parts.scheme ++ 0x3a :: afterColon)).head? =
          Option.some 0x2f := by
        unfold plainPath
        split_ifs
        · exact slash
        · exact copyPathRemovingDots_head slash
      obtain ⟨more, left⟩ := List.head?_eq_some_iff.mp left
      rw [left, if_neg (by simp [some])]
      rfl
  · show appendEscapingBadChars parts.query = [] ∨ _
    obtain none | mark := queryMark
    · rw [none]
      exact .inl rfl
    · obtain ⟨query, shape⟩ := List.head?_eq_some_iff.mp mark
      refine .inr ⟨appendEscapingBadChars query, ?_, appendEscapingBadChars_kept fun inside => ?_⟩
      · show appendEscapingBadChars parts.query = _
        rw [shape]
        rfl
      · refine noEndParts 0 (List.mem_append_left _ (List.mem_append_right _ ?_)) rfl
        rw [shape]
        exact List.mem_cons_of_mem _ inside
  · show (if parts.fragment ≠ [] then _ else _) = [] ∨ _
    by_cases none : parts.fragment = []
    · rw [none]
      exact .inl rfl
    · refine .inr ⟨appendEscapingBadChars parts.fragment.tail, if_pos none,
        appendEscapingBadChars_kept fun inside => ?_⟩
      exact noEndParts 0 (List.mem_append_right _ (List.mem_of_mem_tail inside)) rfl

/-! The positions of an `http` URL. -/

section
variable (notFile : parts.isFile = false)
include notFile

/-- Without an authority there is no user and no password either. -/
theorem noUser_of_not_hasAuthority (none : ¬parts.hasAuthority = true) :
    parts.authority.user = [] ∧ parts.authority.password = [] := by
  have all : (parts.haveNonHostAuthorityPart || parts.authority.host ≠ []) = false := by
    rw [← Bool.not_eq_true]
    unfold Parts.hasAuthority at none
    rwa [if_neg (by simp [notFile])] at none
  simp [Parts.haveNonHostAuthorityPart] at all
  exact all.1.1

theorem userEnd_eq : parts.userEnd = parts.userStart ++ parts.authority.user := by
  rw [userEnd]
  split_ifs with has
  · rfl
  · rw [(noUser_of_not_hasAuthority notFile has).1]

theorem passwordEnd_eq : parts.passwordEnd = parts.userEnd ++ parts.authority.passwordText := by
  rw [passwordEnd, Authority.passwordText]
  by_cases has : parts.hasAuthority = true
  · rw [has, Bool.true_and]
    simp only [decide_eq_true_eq]
  · rw [(noUser_of_not_hasAuthority notFile has).2]
    simp

theorem hostStart_eq : parts.hostStart = parts.passwordEnd ++
    if parts.authority.user ≠ [] ∨ parts.authority.password ≠ [] then [0x40] else [] := by
  have longer : parts.passwordEnd.length ≠ parts.userStart.length ↔
      parts.authority.user ≠ [] ∨ parts.authority.password ≠ [] := by
    rw [passwordEnd_eq notFile, userEnd_eq notFile, Authority.passwordText, List.length_append,
      List.length_append]
    by_cases noUser : parts.authority.user = [] <;>
      by_cases noPassword : parts.authority.password = [] <;> simp [noUser, noPassword]
    omega
  rw [hostStart]
  by_cases has : parts.hasAuthority = true
  · rw [has, Bool.true_and]
    simp only [decide_eq_true_eq, longer]
  · have none := noUser_of_not_hasAuthority notFile has
    simp [has, none.1, none.2]

theorem userInfo_eq : parts.hostStart = parts.userStart ++ parts.authority.userInfo := by
  rw [hostStart_eq notFile, passwordEnd_eq notFile, userEnd_eq notFile, Authority.userInfo]
  simp only [List.append_assoc]

end

section
variable (has : parts.hasAuthority = true)
include has

theorem userStart_eq : parts.userStart = parts.scheme ++ afterScheme [] := by
  rw [userStart, if_pos has, List.append_assoc]
  rfl

theorem portEnd_eq : parts.portEnd = parts.hostEnd ++ portText parts.authority.port := by
  rw [portEnd]
  cases parts.authority.port with
  | none => rfl
  | some port =>
    dsimp only
    rw [if_pos has, portText]

end

theorem pathEnd_eq : parts.pathEnd url = parts.portEnd ++ parts.canonicalPath url :=
  List.append_assoc _ _ _

/-- With an authority the canonical text is that of the canonical parts. -/
theorem fragmentEnd_canonical (has : parts.hasAuthority = true) (notFile : parts.isFile = false) :
    parts.fragmentEnd url = (parts.canonical url).text := by
  rw [fragmentEnd, queryEnd, pathEnd_eq, portEnd_eq has, hostEnd_eq notFile, userInfo_eq notFile,
    userStart_eq has, text, canonical, Authority.text, afterScheme, afterScheme]
  simp only [List.append_assoc, List.cons_append, List.nil_append]

/-- The canonical parts of a canonical text are its own, but for dots in the path. -/
theorem IsWeb.canonical_text (web : parts.IsWeb) :
    parts.canonical parts.text = { parts with path := copyPathRemovingDots parts.path } := by
  have pathKept : (copyPathRemovingDots parts.path).all isKept = true := by
    refine List.all_eq_true.mpr fun c member => ?_
    exact (Bool.and_eq_true_iff.mp (List.all_eq_true.mp web.path c
      (mem_copyPathRemovingDots member))).1
  have plain : parts.plainPath parts.text = copyPathRemovingDots parts.path := by
    rw [plainPath, web.hierarchical, Bool.not_true, Bool.false_or]
    split_ifs with none
    · refine (copyPathRemovingDots_noDots ?_).symm
      have inside : parts.path <:+: parts.text := by
        refine ⟨parts.scheme ++ afterScheme parts.authority.text, parts.query ++ parts.fragment, ?_⟩
        simp [text, afterScheme]
      obtain ⟨before, after, whole⟩ := inside
      rw [Bool.not_eq_true', ← whole] at none
      exact hasSlashDotOrDotDot_suffix (List.suffix_append before parts.path)
        (hasSlashDotOrDotDot_leading (List.prefix_append _ after) none)
    · rfl
  have some : parts.path ≠ [] := by
    intro none
    have slash := web.slash
    rw [none] at slash
    cases slash
  have path : parts.canonicalPath parts.text = copyPathRemovingDots parts.path := by
    rw [canonicalPath, plain, if_neg (by simp [some]), List.nil_append,
      appendEscapingBadChars_of_kept pathKept]
  have query : appendEscapingBadChars parts.query = parts.query := by
    apply appendEscapingBadChars_of_kept
    obtain none | ⟨query, shape, kept⟩ := web.query
    · rw [none]
      rfl
    · rw [shape, List.all_cons, kept]
      decide
  have fragment : (if parts.fragment ≠ [] then 0x23 :: appendEscapingBadChars parts.fragment.tail
      else []) = parts.fragment := by
    obtain none | ⟨fragment, shape, kept⟩ := web.fragment
    · rw [none]
      rfl
    · rw [shape, if_pos (List.cons_ne_nil _ _), List.tail_cons, appendEscapingBadChars_of_kept kept]
  rw [canonical, path, query, fragment, ← web.authorityText]

/-- A canonical text does not end early. -/
theorem IsWeb.noEnd (web : parts.IsWeb) : 0 ∉ parts.text := by
  have scheme : 0 ∉ parts.scheme := fun inside =>
    (schemeChar_facts (List.all_eq_true.mp web.scheme _ inside)).2 rfl
  have path : 0 ∉ parts.path := fun inside =>
    (isKept_facts (Bool.and_eq_true_iff.mp (List.all_eq_true.mp web.path _ inside)).1).1 rfl
  have query : 0 ∉ parts.query := by
    obtain none | ⟨query, shape, kept⟩ := web.query
    · rw [none]
      exact List.not_mem_nil
    · rw [shape, List.mem_cons, not_or]
      exact ⟨by decide, fun inside => (isKept_facts (List.all_eq_true.mp kept _ inside)).1 rfl⟩
  have fragment : 0 ∉ parts.fragment := by
    obtain none | ⟨fragment, shape, kept⟩ := web.fragment
    · rw [none]
      exact List.not_mem_nil
    · rw [shape, List.mem_cons, not_or]
      exact ⟨by decide, fun inside => (isKept_facts (List.all_eq_true.mp kept _ inside)).1 rfl⟩
  have authority := web.authority.noEnd
  simp [text, afterScheme, scheme, path, query, fragment, authority]

end Parts

end WkcBrowser.Url
