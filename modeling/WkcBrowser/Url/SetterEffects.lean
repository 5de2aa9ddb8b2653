import Mathlib.Data.List.Infix
import WkcBrowser.Url.Canonical
import WkcBrowser.Url.SameOrigins
import WkcBrowser.Url.Setters

/-! What a setter changes of an `http` URL. -/

namespace WkcBrowser.Url

open Lib Wtf

/-- A URL cut at one of its positions. -/
theorem cut_eq {url : KURL} {before after : List Byte} (string : url.string = widen (before ++ after)) :
    url.left before.length = widen before ∧ url.substringFrom before.length = widen after ∧
      url.charAt before.length = (after.headD 0).toUInt16 := by
  refine ⟨?_, ?_, ?_⟩
  · rw [KURL.left, string, take_widen, List.take_left]
  · rw [KURL.substringFrom, string, drop_widen, List.drop_left]
  · rw [KURL.charAt, string, widen_append, List.getD_eq_getElem?_getD,
      List.getElem?_append_right (by rw [widen_length]), widen_length, Nat.sub_self]
    cases after <;> rfl

/-- A text without its end in it is parsed as its bytes. -/
theorem parseString_widen {bytes : List Byte} (noEnd : 0 ∉ bytes) :
    KURL.parseString (widen bytes) = KURL.parse bytes := by
  have whole : cString bytes = bytes := by
    refine List.takeWhile_eq_self_iff.mpr fun c member => decide_eq_true ?_
    rintro rfl
    exact noEnd member
  have string : ∃ text, (KURL.parse bytes).string = widen text ∧
      ((KURL.parse bytes).isValid = false → text = bytes) := by
    unfold KURL.parse
    cases splitURL bytes with
    | none => exact ⟨bytes, rfl, fun _ => rfl⟩
    | some parts => exact ⟨parts.fragmentEnd bytes, rfl, fun invalid => by cases invalid⟩
  obtain ⟨text, string, invalid⟩ := string
  rw [KURL.parseString, narrow_widen, whole, string, narrow_widen]
  split_ifs with kept
  · have same : bytes = text := by
      simp only [Bool.or_eq_true, Bool.not_eq_true', decide_eq_true_eq] at kept
      cases kept with
      | inl unparsed => exact (invalid unparsed).symm
      | inr same => exact same
    rw [same] at string ⊢
    rw [← string]
  · rfl

/-! The components of a parsed URL. -/

/-- The path before its escapes are decoded. -/
def KURL.rawPath (url : KURL) : Text := url.substring url.portEnd (url.pathEnd - url.portEnd)

/-- The components that the parts of a canonical text stand for. -/
def Parts.components (characters : Characters) (parts : Parts) : Components where
  protocol := widen parts.scheme
  user := decodeURLEscapeSequences characters (widen parts.authority.user)
  pass := decodeURLEscapeSequences characters (widen parts.authority.password)
  host := decodeURLEscapeSequences characters (widen parts.authority.host)
  port := portNumber (parts.authority.port.getD [])
  path := decodeURLEscapeSequences characters (widen parts.path)
  query := if parts.query = [] then none else some (widen parts.query.tail)
  fragment := if parts.fragment = [] then none else some (widen parts.fragment.tail)

def Parts.withAuthority (parts : Parts) (authority : Authority) : Parts :=
  { parts with authority, authorityText := authority.text }

section
variable {characters : Characters} {url : List Byte} {parts : Parts}
variable (notFile : parts.isFile = false)

theorem hostStart_prefix : parts.hostStart <+: parts.fragmentEnd url :=
  (List.prefix_append _ _).trans ((List.prefix_append _ _).trans portEnd_leading)

theorem pathEnd_leading : parts.pathEnd url <+: parts.fragmentEnd url :=
  (List.prefix_append _ _).trans (List.prefix_append _ _)

include notFile in
theorem assemble_user : (KURL.assemble url parts).user characters =
    decodeURLEscapeSequences characters (widen parts.authority.user) := by
  have front : parts.userStart ++ parts.authority.user <+: parts.fragmentEnd url := by
    rw [← Parts.userEnd_eq notFile]
    exact ((List.prefix_append _ _).trans (List.prefix_append _ _)).trans hostStart_prefix
  have middle := @substring_eq (KURL.assemble url parts) _ _ _ rfl front
  have length : (KURL.assemble url parts).userEnd - (KURL.assemble url parts).userStart =
      parts.authority.user.length := by
    show parts.userEnd.length - parts.userStart.length = _
    rw [Parts.userEnd_eq notFile, List.length_append, Nat.add_sub_cancel_left]
  rw [KURL.user, length]
  exact congrArg _ middle

include notFile in
theorem assemble_pass : (KURL.assemble url parts).pass characters =
    decodeURLEscapeSequences characters (widen parts.authority.password) := by
  have ends : (KURL.assemble url parts).passwordEnd =
      parts.userEnd.length + parts.authority.passwordText.length := by
    show parts.passwordEnd.length = _
    rw [Parts.passwordEnd_eq notFile, List.length_append]
  have userEnd : (KURL.assemble url parts).userEnd = parts.userEnd.length := rfl
  rw [KURL.pass, ends, userEnd]
  by_cases none : parts.authority.password = []
  · rw [Authority.passwordText, none, if_neg (not_not.mpr rfl), List.length_nil, Nat.add_zero, if_pos rfl]
    exact (decodeURLEscapeSequences.eq_def characters []).symm
  · have long : parts.authority.passwordText = 0x3a :: parts.authority.password := if_pos none
    have front : (parts.userEnd ++ [0x3a]) ++ parts.authority.password <+: parts.fragmentEnd url := by
      rw [List.append_assoc, List.singleton_append, ← long, ← Parts.passwordEnd_eq notFile]
      exact (List.prefix_append _ _).trans hostStart_prefix
    have middle := @substring_eq (KURL.assemble url parts) _ _ _ rfl front
    rw [List.length_append, List.length_singleton] at middle
    rw [long, List.length_cons, if_neg (by omega), Nat.add_sub_cancel_left, Nat.add_sub_cancel, middle]

theorem assemble_rawPath :
    (KURL.assemble url parts).rawPath = widen (parts.canonical url).path := by
  have front : parts.portEnd ++ parts.canonicalPath url <+: parts.fragmentEnd url := by
    rw [← Parts.pathEnd_eq]
    exact pathEnd_leading
  have middle := @substring_eq (KURL.assemble url parts) _ _ _ rfl front
  have length : (KURL.assemble url parts).pathEnd - (KURL.assemble url parts).portEnd =
      (parts.canonicalPath url).length := by
    show (parts.pathEnd url).length - parts.portEnd.length = _
    rw [Parts.pathEnd_eq, List.length_append, Nat.add_sub_cancel_left]
  rw [KURL.rawPath, length]
  exact middle

theorem assemble_path : (KURL.assemble url parts).path characters =
    decodeURLEscapeSequences characters (widen (parts.canonicalPath url)) :=
  congrArg _ assemble_rawPath

/-- A part with a mark before it. -/
theorem marked_eq {before text whole : List Byte} {url : KURL} (string : url.string = widen whole)
    (front : before ++ text <+: whole) (some : text ≠ []) :
    url.substring (before.length + 1) ((before ++ text).length - (before.length + 1)) =
      widen text.tail := by
  cases text with
  | nil => exact absurd rfl some
  | cons mark text =>
    have front' : (before ++ [mark]) ++ text <+: whole := by
      rwa [List.append_assoc, List.singleton_append]
    have middle := substring_eq string front'
    rw [List.length_append, List.length_singleton] at middle
    rw [List.length_append, List.length_cons, List.tail_cons]
    have length : before.length + (text.length + 1) - (before.length + 1) = text.length := by omega
    rw [length, middle]

theorem assemble_query : (KURL.assemble url parts).query =
    if appendEscapingBadChars parts.query = [] then none
    else some (widen (appendEscapingBadChars parts.query).tail) := by
  have front : parts.pathEnd url ++ appendEscapingBadChars parts.query <+: parts.fragmentEnd url :=
    List.prefix_append _ _
  have ends : (KURL.assemble url parts).queryEnd = (parts.pathEnd url ++ appendEscapingBadChars parts.query).length :=
    rfl
  have pathEnd : (KURL.assemble url parts).pathEnd = (parts.pathEnd url).length := rfl
  rw [KURL.query, ends, pathEnd]
  by_cases none : appendEscapingBadChars parts.query = []
  · rw [if_pos none, none, List.append_nil, if_pos rfl]
  · have some := List.length_pos_iff.mpr none
    rw [if_neg none, if_neg (by rw [List.length_append]; omega), marked_eq rfl front none]

theorem assemble_fragmentIdentifier : (KURL.assemble url parts).fragmentIdentifier =
    if parts.fragment = [] then none
    else some (widen (appendEscapingBadChars parts.fragment.tail)) := by
  have ends : (KURL.assemble url parts).fragmentEnd = (parts.fragmentEnd url).length := rfl
  have queryEnd : (KURL.assemble url parts).queryEnd = (parts.queryEnd url).length := rfl
  rw [KURL.fragmentIdentifier, ends, queryEnd]
  by_cases none : parts.fragment = []
  · have same : parts.fragmentEnd url = parts.queryEnd url := by
      rw [Parts.fragmentEnd, if_neg (not_not.mpr none), List.append_nil]
    rw [if_pos none, same, if_pos rfl]
  · have whole : parts.fragmentEnd url =
        parts.queryEnd url ++ 0x23 :: appendEscapingBadChars parts.fragment.tail := by
      rw [Parts.fragmentEnd, if_pos none]
    have front : parts.queryEnd url ++ 0x23 :: appendEscapingBadChars parts.fragment.tail <+:
        parts.fragmentEnd url := by
      rw [whole]
    have middle := @marked_eq _ _ _ (KURL.assemble url parts) rfl front (List.cons_ne_nil _ _)
    rw [if_neg none, whole, middle, List.tail_cons, if_neg]
    rw [List.length_append, List.length_cons]
    omega

include notFile in
/-- What is read from a URL is what the parts of its canonical text stand for. -/
theorem components_assemble : (KURL.assemble url parts).components characters =
    (parts.canonical url).components characters := by
  have host : (KURL.assemble url parts).host characters =
      decodeURLEscapeSequences characters (widen parts.authority.host) :=
    congrArg _ (assemble_rawHost notFile)
  have fragment : (if parts.fragment = [] then none
      else some (widen (appendEscapingBadChars parts.fragment.tail))) =
        if (if parts.fragment ≠ [] then 0x23 :: appendEscapingBadChars parts.fragment.tail else []) = []
          then none
        else some (widen (if parts.fragment ≠ [] then 0x23 :: appendEscapingBadChars parts.fragment.tail
          else []).tail) := by
    by_cases none : parts.fragment = []
    · rw [if_pos none, if_neg (not_not.mpr none), if_pos rfl]
    · rw [if_neg none, if_pos none, if_neg (List.cons_ne_nil _ _), List.tail_cons]
  unfold KURL.components Parts.components
  rw [assemble_protocol, assemble_user notFile, assemble_pass notFile, host, assemble_port notFile,
    assemble_path, assemble_query, assemble_fragmentIdentifier, fragment]
  rfl

end

/-! The calls. -/

inductive Setter where
  | setUser (user : List Byte)
  | setPass (password : List Byte)
  | setHost (host : List Byte)
  | setPort (port : UInt16)
  | setHostAndPort (host : List Byte) (port : Option (List Byte))
  | setQuery (query : Option (List Byte))
  | setFragmentIdentifier (fragment : List Byte)
  | removePort
  | removeFragmentIdentifier
deriving DecidableEq

/-- The query without its mark. -/
def withoutMark (query : List Byte) : List Byte :=
  if query.head? = some 0x3f then query.tail else query

namespace Setter

/-- The new value has characters that are legal in its component and are no escapes there. -/
def isLegal : Setter → Bool
  | setUser user => user.all fun c => isUserInfoChar c && c ≠ 0x3a && c ≠ 0x25
  | setPass password => password.all fun c => isUserInfoChar c && c ≠ 0x25
  | setHost host => isHost host && host.all fun c => c ≠ 0x25
  | setHostAndPort host port =>
    isHost host && (host.all fun c => c ≠ 0x25) && (port.getD []).all isASCIIDigit
  | setQuery query => (query.getD []).all isKept
  | setFragmentIdentifier fragment => fragment.all isKept
  | setPort _ => true
  | removePort => true
  | removeFragmentIdentifier => true

def apply (url : KURL) : Setter → KURL
  | setUser user => url.setUser (widen user)
  | setPass password => url.setPass (widen password)
  | setHost host => url.setHost (widen host)
  | setPort port => url.setPort port
  | setHostAndPort host port => url.setHostAndPort (widen (host ++ portText port))
  | setQuery query => url.setQuery (query.map widen)
  | setFragmentIdentifier fragment => url.setFragmentIdentifier (widen fragment)
  | removePort => url.removePort
  | removeFragmentIdentifier => url.removeFragmentIdentifier

/-- What is read after the call. -/
def change (components : Components) : Setter → Components
  | setUser user => { components with user := widen user }
  | setPass password => { components with pass := widen password }
  | setHost host => { components with host := widen host }
  | setPort port => { components with port := port.toNat }
  | setHostAndPort host port =>
    { components with host := widen host, port := portNumber (port.getD []) }
  | setQuery query => { components with query := query.map fun query => widen (withoutMark query) }
  | setFragmentIdentifier fragment => { components with fragment := some (widen fragment) }
  | removePort => { components with port := 0 }
  | removeFragmentIdentifier => { components with fragment := none }

/-- The parts of the text that is parsed for the call. -/
def edit (parts : Parts) : Setter → Parts
  | setUser user => parts.withAuthority { parts.authority with user }
  | setPass password => parts.withAuthority { parts.authority with password }
  | setHost host => parts.withAuthority { parts.authority with host }
  | setPort port =>
    parts.withAuthority { parts.authority with port := some (narrow (number port.toNat)) }
  | setHostAndPort host port => parts.withAuthority { parts.authority with host, port }
  | setQuery query =>
    { parts with query := (query.map fun query => 0x3f :: withoutMark query).getD [] }
  | setFragmentIdentifier fragment => { parts with fragment := 0x23 :: fragment }
  | removePort => parts.withAuthority { parts.authority with port := none }
  | removeFragmentIdentifier => { parts with fragment := [] }

end Setter

/-! The text that a call parses. -/

/-- What is behind the authority. -/
def Parts.tail (parts : Parts) : List Byte := parts.path ++ parts.query ++ parts.fragment

section
variable {url : List Byte} {parts : Parts}

theorem cut_at {url : KURL} {before after whole : List Byte} {n : Nat}
    (string : url.string = widen whole) (split : whole = before ++ after) (position : n = before.length) :
    url.left n = widen before ∧ url.substringFrom n = widen after ∧
      url.charAt n = (after.headD 0).toUInt16 := by
  rw [position]
  exact cut_eq (string.trans (congrArg widen split))

theorem withAuthority_text (parts : Parts) (authority : Authority) :
    (parts.withAuthority authority).text =
      parts.scheme ++ afterScheme (authority.text ++ parts.tail) := by
  rw [Parts.text, Parts.withAuthority, Parts.tail]
  simp only [List.append_assoc]

variable (has : parts.hasAuthority = true) (notFile : parts.isFile = false)
include has notFile

theorem cut_userStart : parts.fragmentEnd url =
    parts.userStart ++ (parts.authority.text ++ (parts.canonical url).tail) := by
  rw [Parts.fragmentEnd_canonical has notFile, Parts.text, Parts.userStart_eq has, Parts.tail]
  simp only [Parts.canonical, afterScheme, List.append_assoc, List.cons_append, List.nil_append]

theorem cut_userEnd : parts.fragmentEnd url =
    parts.userEnd ++ (parts.authority.passwordText ++
      ((if parts.authority.user ≠ [] ∨ parts.authority.password ≠ [] then [0x40] else []) ++
        (parts.authority.host ++ portText parts.authority.port ++ (parts.canonical url).tail))) := by
  rw [cut_userStart has notFile, Parts.userEnd_eq notFile, Authority.text, Authority.userInfo]
  simp only [List.append_assoc]

theorem cut_passwordEnd : parts.fragmentEnd url =
    parts.passwordEnd ++
      ((if parts.authority.user ≠ [] ∨ parts.authority.password ≠ [] then [0x40] else []) ++
        (parts.authority.host ++ portText parts.authority.port ++ (parts.canonical url).tail)) := by
  rw [cut_userEnd has notFile, Parts.passwordEnd_eq notFile]
  simp only [List.append_assoc]

theorem cut_hostStart : parts.fragmentEnd url =
    parts.hostStart ++
      (parts.authority.host ++ portText parts.authority.port ++ (parts.canonical url).tail) := by
  rw [cut_passwordEnd has notFile, Parts.hostStart_eq notFile]
  simp only [List.append_assoc]

theorem cut_hostEnd : parts.fragmentEnd url =
    parts.hostEnd ++ (portText parts.authority.port ++ (parts.canonical url).tail) := by
  rw [cut_hostStart has notFile, hostEnd_eq notFile]
  simp only [List.append_assoc]

theorem cut_portEnd : parts.fragmentEnd url = parts.portEnd ++ (parts.canonical url).tail := by
  rw [cut_hostEnd has notFile, Parts.portEnd_eq has]
  simp only [List.append_assoc]

omit notFile in
theorem noSlashSlash : (KURL.assemble url parts).userStart ≠ (KURL.assemble url parts).schemeEnd + 1 := by
  show parts.userStart.length ≠ parts.scheme.length + 1
  rw [Parts.userStart_eq has, List.length_append]
  simp [afterScheme]

theorem setHost_assemble (host : List Byte) : (KURL.assemble url parts).setHost (widen host) =
    KURL.parseString (widen ((Setter.setHost host).edit (parts.canonical url)).text) := by
  have valid : (KURL.assemble url parts).isValid = true := rfl
  obtain ⟨left, -, -⟩ := @cut_at (KURL.assemble url parts) _ _ _ _ rfl (cut_hostStart has notFile)
    assemble_hostStart
  obtain ⟨-, right, -⟩ := @cut_at (KURL.assemble url parts) _ _ _ (KURL.assemble url parts).hostEnd rfl
    (cut_hostEnd has notFile) rfl
  have text : ((Setter.setHost host).edit (parts.canonical url)).text =
      parts.hostStart ++ host ++ (portText parts.authority.port ++ (parts.canonical url).tail) := by
    rw [Setter.edit, withAuthority_text, Parts.userInfo_eq notFile, Parts.userStart_eq has]
    simp [Authority.text, Authority.userInfo, Authority.passwordText, Parts.canonical, afterScheme,
      Parts.tail]
  rw [KURL.setHost, valid, if_neg (by decide)]
  dsimp only
  rw [decide_eq_false (noSlashSlash has), left, right, if_neg Bool.false_ne_true, List.append_nil, text]
  simp only [widen_append]

theorem setHostAndPort_assemble (host : List Byte) (port : Option (List Byte)) :
    (KURL.assemble url parts).setHostAndPort (widen (host ++ portText port)) =
      KURL.parseString (widen ((Setter.setHostAndPort host port).edit (parts.canonical url)).text) := by
  have valid : (KURL.assemble url parts).isValid = true := rfl
  obtain ⟨left, -, -⟩ := @cut_at (KURL.assemble url parts) _ _ _ _ rfl (cut_hostStart has notFile)
    assemble_hostStart
  obtain ⟨-, right, -⟩ := @cut_at (KURL.assemble url parts) _ _ _ (KURL.assemble url parts).portEnd rfl
    (cut_portEnd has notFile) rfl
  have text : ((Setter.setHostAndPort host port).edit (parts.canonical url)).text =
      parts.hostStart ++ (host ++ portText port) ++ (parts.canonical url).tail := by
    rw [Setter.edit, withAuthority_text, Parts.userInfo_eq notFile, Parts.userStart_eq has]
    simp [Authority.text, Authority.userInfo, Authority.passwordText, Parts.canonical, afterScheme,
      Parts.tail]
  rw [KURL.setHostAndPort, valid, if_neg (by decide)]
  dsimp only
  rw [decide_eq_false (noSlashSlash has), left, right, if_neg Bool.false_ne_true, List.append_nil, text,
    widen_append _ (parts.canonical url).tail, widen_append parts.hostStart]

theorem setPort_assemble (port : UInt16) : (KURL.assemble url parts).setPort port =
    KURL.parseString (widen ((Setter.setPort port).edit (parts.canonical url)).text) := by
  have valid : (KURL.assemble url parts).isValid = true := rfl
  have hostEnd : (KURL.assemble url parts).hostEnd = parts.hostEnd.length := rfl
  have portEnd : (KURL.assemble url parts).portEnd = parts.portEnd.length := rfl
  obtain ⟨-, right, -⟩ := @cut_at (KURL.assemble url parts) _ _ _ (KURL.assemble url parts).portEnd rfl
    (cut_portEnd has notFile) rfl
  have text : ((Setter.setPort port).edit (parts.canonical url)).text =
      parts.hostEnd ++ [0x3a] ++ narrow (number port.toNat) ++ (parts.canonical url).tail := by
    rw [Setter.edit, withAuthority_text, hostEnd_eq notFile, Parts.userInfo_eq notFile,
      Parts.userStart_eq has]
    simp [Authority.text, Authority.userInfo, Authority.passwordText, Parts.canonical, afterScheme,
      Parts.tail, portText]
  have digits := (narrow_number_facts port.toNat).2
  rw [KURL.setPort, valid, if_neg (by decide)]
  dsimp only
  rw [right, text, widen_append _ (parts.canonical url).tail, widen_append _ (narrow _), digits]
  congr 2
  cases shape : parts.authority.port with
  | none =>
    have same : parts.portEnd = parts.hostEnd := by rw [Parts.portEnd_eq has, shape, portText, List.append_nil]
    obtain ⟨left, -, -⟩ := @cut_at (KURL.assemble url parts) _ _ _ (KURL.assemble url parts).hostEnd rfl
      (cut_hostEnd has notFile) rfl
    rw [hostEnd, portEnd, same, decide_eq_true rfl, if_pos rfl, if_pos rfl, ← hostEnd, left, widen_append]
    rfl
  | some digits =>
    have longer : parts.fragmentEnd url = (parts.hostEnd ++ [0x3a]) ++ (digits ++ (parts.canonical url).tail) := by
      rw [cut_hostEnd has notFile, shape, portText]
      simp
    have differs : ¬parts.portEnd.length = parts.hostEnd.length := by
      rw [Parts.portEnd_eq has, shape, portText, List.length_append, List.length_cons]
      omega
    obtain ⟨left, -, -⟩ := @cut_at (KURL.assemble url parts) _ _ _ (parts.hostEnd.length + 1) rfl longer
      (by rw [List.length_append, List.length_singleton])
    rw [hostEnd, portEnd, decide_eq_false differs, if_neg Bool.false_ne_true, if_neg Bool.false_ne_true, left,
      List.append_nil]

theorem removePort_assemble (some : parts.authority.port ≠ none) :
    (KURL.assemble url parts).removePort =
      KURL.parseString (widen ((Setter.removePort).edit (parts.canonical url)).text) := by
  have longer : (KURL.assemble url parts).hostEnd ≠ (KURL.assemble url parts).portEnd := by
    show parts.hostEnd.length ≠ parts.portEnd.length
    rw [Parts.portEnd_eq has, List.length_append]
    cases shape : parts.authority.port with
    | none => exact absurd shape some
    | some digits =>
      rw [portText, List.length_cons]
      omega
  obtain ⟨left, -, -⟩ := @cut_at (KURL.assemble url parts) _ _ _ (KURL.assemble url parts).hostEnd rfl
    (cut_hostEnd has notFile) rfl
  obtain ⟨-, right, -⟩ := @cut_at (KURL.assemble url parts) _ _ _ (KURL.assemble url parts).portEnd rfl
    (cut_portEnd has notFile) rfl
  have text : ((Setter.removePort).edit (parts.canonical url)).text =
      parts.hostEnd ++ (parts.canonical url).tail := by
    rw [Setter.edit, withAuthority_text, hostEnd_eq notFile, Parts.userInfo_eq notFile,
      Parts.userStart_eq has]
    simp [Authority.text, Authority.userInfo, Authority.passwordText, Parts.canonical, afterScheme,
      Parts.tail, portText]
  rw [KURL.removePort, if_neg longer, left, right, text, widen_append]

omit has notFile in
theorem cut_pathEnd : parts.fragmentEnd url =
    parts.pathEnd url ++ ((parts.canonical url).query ++ (parts.canonical url).fragment) :=
  List.append_assoc _ _ _

theorem setQuery_assemble (query : Option (List Byte)) :
    (KURL.assemble url parts).setQuery (query.map widen) =
      KURL.parseString (widen ((Setter.setQuery query).edit (parts.canonical url)).text) := by
  have valid : (KURL.assemble url parts).isValid = true := rfl
  obtain ⟨left, -, -⟩ := @cut_at (KURL.assemble url parts) _ _ _ (KURL.assemble url parts).pathEnd rfl
    cut_pathEnd rfl
  obtain ⟨-, right, -⟩ := @cut_at (KURL.assemble url parts) (parts.queryEnd url)
    (parts.canonical url).fragment _ (KURL.assemble url parts).queryEnd rfl rfl rfl
  have text : ((Setter.setQuery query).edit (parts.canonical url)).text =
      parts.pathEnd url ++ (query.map fun query => 0x3f :: withoutMark query).getD [] ++
        (parts.canonical url).fragment := by
    rw [Setter.edit, Parts.pathEnd_eq, Parts.portEnd_eq has, hostEnd_eq notFile, Parts.userInfo_eq notFile,
      Parts.userStart_eq has, Parts.text]
    simp [Authority.text, Parts.canonical, afterScheme]
  unfold KURL.setQuery
  rw [valid, if_neg (by decide)]
  dsimp only
  rw [left, right, text, widen_append, widen_append]
  congr 3
  cases query with
  | none => rfl
  | some query =>
    cases query with
    | nil => rfl
    | cons c query =>
      by_cases mark : c = 0x3f
      · subst mark
        rfl
      · have differs : (widen (c :: query)).head? ≠ some 0x3f := by
          intro same
          have wide : c.toUInt16 = 0x3f := Option.some.inj same
          have facts := forall_byte (fun c => c = 0x3f || c.toUInt16 ≠ 0x3f) (by decide) c
          simp [mark, wide] at facts
        have noMark : withoutMark (c :: query) = c :: query :=
          if_neg fun same => mark (Option.some.inj same)
        dsimp only [Option.map_some, Option.getD_some]
        rw [if_pos differs, noMark]
        rfl

theorem setFragmentIdentifier_assemble (fragment : List Byte) :
    (KURL.assemble url parts).setFragmentIdentifier (widen fragment) =
      KURL.parseString (widen ((Setter.setFragmentIdentifier fragment).edit (parts.canonical url)).text) := by
  have valid : (KURL.assemble url parts).isValid = true := rfl
  obtain ⟨left, -, -⟩ := @cut_at (KURL.assemble url parts) (parts.queryEnd url)
    (parts.canonical url).fragment _ (KURL.assemble url parts).queryEnd rfl rfl rfl
  have text : ((Setter.setFragmentIdentifier fragment).edit (parts.canonical url)).text =
      parts.queryEnd url ++ [0x23] ++ fragment := by
    rw [Setter.edit, Parts.queryEnd, Parts.pathEnd_eq, Parts.portEnd_eq has, hostEnd_eq notFile,
      Parts.userInfo_eq notFile, Parts.userStart_eq has, Parts.text]
    simp [Authority.text, Parts.canonical, afterScheme]
  rw [KURL.setFragmentIdentifier, valid, if_neg (by decide), left, text, widen_append, widen_append]
  rfl

theorem removeFragmentIdentifier_assemble :
    (KURL.assemble url parts).removeFragmentIdentifier =
      KURL.parseString (widen ((Setter.removeFragmentIdentifier).edit (parts.canonical url)).text) := by
  have valid : (KURL.assemble url parts).isValid = true := rfl
  obtain ⟨left, -, -⟩ := @cut_at (KURL.assemble url parts) (parts.queryEnd url)
    (parts.canonical url).fragment _ (KURL.assemble url parts).queryEnd rfl rfl rfl
  have text : ((Setter.removeFragmentIdentifier).edit (parts.canonical url)).text =
      parts.queryEnd url := by
    rw [Setter.edit, Parts.queryEnd, Parts.pathEnd_eq, Parts.portEnd_eq has, hostEnd_eq notFile,
      Parts.userInfo_eq notFile, Parts.userStart_eq has, Parts.text]
    simp [Authority.text, Parts.canonical, afterScheme]
  rw [KURL.removeFragmentIdentifier, valid, if_neg (by decide), left, text]

variable (clean : parts.authority.Clean) (hosted : parts.authority.host ≠ [])

omit has notFile in
include clean hosted in
theorem host_noMark (rest : List Byte) : (parts.authority.host ++ rest).headD 0 ≠ 0x40 := by
  cases shape : parts.authority.host with
  | nil => exact absurd shape hosted
  | cons c host =>
    show c ≠ 0x40
    rintro rfl
    obtain names | ⟨inside, bracket, -⟩ := isHost_cases clean.host
    · rw [shape, List.all_cons, Bool.and_eq_true] at names
      exact (userInfoChar_facts (hostnameChar_facts names.1).1).2 rfl
    · rw [shape] at bracket
      cases bracket

omit has in
include hosted in
theorem passwordEnd_lt : parts.passwordEnd.length < parts.hostEnd.length := by
  have some := List.length_pos_iff.mpr hosted
  rw [hostEnd_eq notFile, Parts.hostStart_eq notFile, List.length_append, List.length_append]
  omega

include clean hosted in
/-- The mark stands behind the password when there is a user or a password. -/
theorem charAt_passwordEnd :
    (KURL.assemble url parts).charAt (KURL.assemble url parts).passwordEnd = 0x40 ↔
      parts.authority.user ≠ [] ∨ parts.authority.password ≠ [] := by
  obtain ⟨-, -, mark⟩ := @cut_at (KURL.assemble url parts) _ _ _ (KURL.assemble url parts).passwordEnd rfl
    (cut_passwordEnd has notFile) rfl
  rw [mark]
  by_cases named : parts.authority.user ≠ [] ∨ parts.authority.password ≠ []
  · rw [if_pos named]
    exact iff_of_true rfl named
  · rw [if_neg named, List.nil_append, List.append_assoc]
    have noMark := host_noMark clean hosted (portText parts.authority.port ++ (parts.canonical url).tail)
    have narrow := forall_byte (fun c => c = 0x40 || c.toUInt16 ≠ 0x40) (by decide)
      ((parts.authority.host ++ (portText parts.authority.port ++ (parts.canonical url).tail)).headD 0)
    simp only [noMark, decide_false, Bool.false_or, decide_eq_true_eq] at narrow
    exact iff_of_false narrow named

/-- What is behind the mark, or behind the password without one. -/
theorem substring_host : (KURL.assemble url parts).substringFrom
    (if parts.authority.user ≠ [] ∨ parts.authority.password ≠ [] then
      (KURL.assemble url parts).passwordEnd + 1 else (KURL.assemble url parts).passwordEnd) =
    widen (parts.authority.host ++ portText parts.authority.port ++ (parts.canonical url).tail) := by
  have cut := @cut_at (KURL.assemble url parts) _ _ _ (if parts.authority.user ≠ [] ∨
    parts.authority.password ≠ [] then (KURL.assemble url parts).passwordEnd + 1
      else (KURL.assemble url parts).passwordEnd) rfl (cut_hostStart has notFile)
  refine (cut ?_).2.1
  rw [Parts.hostStart_eq notFile, List.length_append]
  split_ifs
  · rfl
  · rfl

omit has in
theorem userStart_iff : (KURL.assemble url parts).userStart = (KURL.assemble url parts).userEnd ↔
    parts.authority.user = [] := by
  show parts.userStart.length = parts.userEnd.length ↔ _
  rw [Parts.userEnd_eq notFile, List.length_append, ← List.length_eq_zero_iff]
  omega

include clean hosted in
theorem setPass_assemble (password : List Byte) :
    (KURL.assemble url parts).setPass (widen password) =
      KURL.parseString (widen ((Setter.setPass password).edit (parts.canonical url)).text) := by
  have valid : (KURL.assemble url parts).isValid = true := rfl
  have before : (KURL.assemble url parts).passwordEnd ≠ (KURL.assemble url parts).hostEnd :=
    Nat.ne_of_lt (passwordEnd_lt notFile hosted)
  have mark := @charAt_passwordEnd url parts has notFile clean hosted
  have behind := @substring_host url parts has notFile
  obtain ⟨left, -, -⟩ := @cut_at (KURL.assemble url parts) _ _ _ (KURL.assemble url parts).userEnd rfl
    (cut_userEnd has notFile) rfl
  have slashes : (KURL.assemble url parts).userEnd ≠ (KURL.assemble url parts).schemeEnd + 1 := by
    show parts.userEnd.length ≠ parts.scheme.length + 1
    rw [Parts.userEnd_eq notFile, Parts.userStart_eq has]
    simp [afterScheme]
  have text : ((Setter.setPass password).edit (parts.canonical url)).text =
      parts.userEnd ++ ((if password ≠ [] then 0x3a :: password else []) ++
        if parts.authority.user ≠ [] ∨ password ≠ [] then [0x40] else []) ++
          (parts.authority.host ++ portText parts.authority.port ++ (parts.canonical url).tail) := by
    rw [Setter.edit, withAuthority_text, Parts.userEnd_eq notFile, Parts.userStart_eq has]
    simp [Authority.text, Authority.userInfo, Authority.passwordText, Parts.canonical, afterScheme,
      Parts.tail]
  unfold KURL.setPass
  rw [valid, if_neg (by decide)]
  dsimp only
  cases password with
  | nil =>
    have none : ¬widen [] ≠ [] := not_not.mpr rfl
    rw [if_neg none, left, text, decide_eq_true before, Bool.and_true]
    by_cases noUser : parts.authority.user = []
    · have same : (KURL.assemble url parts).userStart = (KURL.assemble url parts).userEnd :=
        (userStart_iff notFile).mpr noUser
      rw [decide_eq_true same, Bool.true_and]
      simp only [decide_eq_true_eq, mark]
      rw [behind, noUser]
      simp [widen_append]
    · have differs : (KURL.assemble url parts).userStart ≠ (KURL.assemble url parts).userEnd :=
        fun same => noUser ((userStart_iff notFile).mp same)
      obtain ⟨-, right, -⟩ := @cut_at (KURL.assemble url parts) _ _ _
        (KURL.assemble url parts).passwordEnd rfl (cut_passwordEnd has notFile) rfl
      rw [decide_eq_false differs, Bool.false_and, if_neg Bool.false_ne_true, right, if_pos (.inl noUser),
        if_neg (not_not.mpr rfl), if_pos (.inl noUser)]
      simp only [widen_append, List.nil_append, List.append_assoc]
  | cons c password =>
    have some : widen (c :: password) ≠ [] := List.cons_ne_nil _ _
    have someByte : c :: password ≠ [] := List.cons_ne_nil _ _
    have marked : parts.authority.user ≠ [] ∨ c :: password ≠ [] := .inr someByte
    rw [if_pos some, if_neg slashes, left, text, if_pos someByte, if_pos marked, decide_eq_true before,
      Bool.true_and]
    simp only [decide_eq_true_eq, mark]
    rw [behind]
    simp only [widen_append]
    rfl

include clean hosted in
theorem setUser_assemble (user : List Byte) :
    (KURL.assemble url parts).setUser (widen user) =
      KURL.parseString (widen ((Setter.setUser user).edit (parts.canonical url)).text) := by
  have valid : (KURL.assemble url parts).isValid = true := rfl
  have long := passwordEnd_lt notFile hosted
  have within : parts.userEnd.length ≤ parts.passwordEnd.length := by
    rw [Parts.passwordEnd_eq notFile, List.length_append]
    omega
  have before : (KURL.assemble url parts).userEnd ≠ (KURL.assemble url parts).hostEnd := by
    show parts.userEnd.length ≠ parts.hostEnd.length
    omega
  have atPassword : (KURL.assemble url parts).userEnd = (KURL.assemble url parts).passwordEnd ↔
      parts.authority.password = [] := by
    show parts.userEnd.length = parts.passwordEnd.length ↔ _
    rw [Parts.passwordEnd_eq notFile, List.length_append, Authority.passwordText]
    by_cases none : parts.authority.password = [] <;> simp [none]
  have mark := @charAt_passwordEnd url parts has notFile clean hosted
  have behind := @substring_host url parts has notFile
  obtain ⟨left, -, -⟩ := @cut_at (KURL.assemble url parts) _ _ _ (KURL.assemble url parts).userStart rfl
    (cut_userStart has notFile) rfl
  obtain ⟨-, right, -⟩ := @cut_at (KURL.assemble url parts) _ _ _ (KURL.assemble url parts).userEnd rfl
    (cut_userEnd has notFile) rfl
  have text : ((Setter.setUser user).edit (parts.canonical url)).text =
      parts.userStart ++ (user ++ (parts.authority.passwordText ++
        ((if user ≠ [] ∨ parts.authority.password ≠ [] then [0x40] else []) ++
          (parts.authority.host ++ portText parts.authority.port ++ (parts.canonical url).tail)))) := by
    rw [Setter.edit, withAuthority_text, Parts.userStart_eq has]
    simp [Authority.text, Authority.userInfo, Authority.passwordText, Parts.canonical, afterScheme,
      Parts.tail]
  unfold KURL.setUser
  rw [valid, if_neg (by decide)]
  dsimp only
  rw [left, text]
  by_cases none : parts.authority.password = []
  · have same := atPassword.mpr none
    rw [← same] at mark behind
    rw [decide_eq_true same, decide_eq_true before, Bool.true_and, Bool.true_and, decide_eq_false before,
      Bool.false_or, Bool.true_and]
    cases user with
    | nil =>
      have empty : ¬widen [] ≠ [] := not_not.mpr rfl
      rw [if_neg empty]
      simp only [decide_eq_true_eq, mark]
      rw [behind]
      simp [Authority.passwordText, none, widen_append]
    | cons c user =>
      have some : widen (c :: user) ≠ [] := List.cons_ne_nil _ _
      rw [if_pos some, if_neg (noSlashSlash has), right]
      by_cases noUser : parts.authority.user = []
      · simp [mark, none, noUser, Authority.passwordText, widen]
      · simp [mark, none, noUser, Authority.passwordText, widen]
  · have differs : ¬(KURL.assemble url parts).userEnd = (KURL.assemble url parts).passwordEnd :=
      fun same => none (atPassword.mp same)
    rw [decide_eq_false differs, Bool.false_and, Bool.false_and, Bool.false_and, decide_eq_false before,
      Bool.false_or, if_neg Bool.false_ne_true, if_neg Bool.false_ne_true, right]
    cases user with
    | nil => simp [none, widen]
    | cons c user =>
      rw [if_neg (noSlashSlash has)]
      simp [none, widen]

include clean hosted in
/-- A call parses the text of the parts that it edits. -/
theorem apply_assemble (setter : Setter) :
    setter.apply (KURL.assemble url parts) =
      if setter = .removePort ∧ parts.authority.port = none then KURL.assemble url parts
      else KURL.parseString (widen (setter.edit (parts.canonical url)).text) := by
  cases setter with
  | setUser user => exact setUser_assemble has notFile clean hosted user
  | setPass password => exact setPass_assemble has notFile clean hosted password
  | setHost host => exact setHost_assemble has notFile host
  | setPort port => exact setPort_assemble has notFile port
  | setHostAndPort host port => exact setHostAndPort_assemble has notFile host port
  | setQuery query => exact setQuery_assemble has notFile query
  | setFragmentIdentifier fragment => exact setFragmentIdentifier_assemble has notFile fragment
  | removeFragmentIdentifier => exact removeFragmentIdentifier_assemble has notFile
  | removePort =>
    split_ifs with noPort
    · have same : parts.portEnd = parts.hostEnd := by
        rw [Parts.portEnd_eq has, noPort.2, portText, List.append_nil]
      exact if_pos (congrArg List.length same.symm)
    · exact removePort_assemble has notFile fun none => noPort ⟨rfl, none⟩

end

/-! What the edited parts are. -/

section
variable {characters : Characters} {parts : Parts} {setter : Setter}

theorem Parts.IsWeb.withAuthority (web : parts.IsWeb) {authority : Authority}
    (clean : authority.Clean) : (parts.withAuthority authority).IsWeb :=
  { web with authority := clean, authorityText := rfl }

theorem Parts.IsWeb.edit (web : parts.IsWeb) (legal : setter.isLegal = true) :
    (setter.edit parts).IsWeb := by
  have authority := web.authority
  cases setter with
  | setUser user =>
    refine web.withAuthority { authority with user := List.all_eq_true.mpr fun c member => ?_ }
    exact (Bool.and_eq_true_iff.mp (List.all_eq_true.mp legal c member)).1
  | setPass password =>
    refine web.withAuthority { authority with password := List.all_eq_true.mpr fun c member => ?_ }
    exact (Bool.and_eq_true_iff.mp (List.all_eq_true.mp legal c member)).1
  | setHost host =>
    exact web.withAuthority { authority with host := (Bool.and_eq_true_iff.mp legal).1 }
  | setPort port =>
    exact web.withAuthority { authority with port := (narrow_number_facts port.toNat).1 }
  | setHostAndPort host port =>
    obtain ⟨taken, digits⟩ := Bool.and_eq_true_iff.mp legal
    exact web.withAuthority
      { authority with host := (Bool.and_eq_true_iff.mp taken).1, port := digits }
  | removePort => exact web.withAuthority { authority with port := rfl }
  | setFragmentIdentifier fragment => exact { web with fragment := .inr ⟨fragment, rfl, legal⟩ }
  | removeFragmentIdentifier => exact { web with fragment := .inl rfl }
  | setQuery query =>
    cases query with
    | none => exact { web with query := .inl rfl }
    | some query =>
      refine { web with query := .inr ⟨withoutMark query, rfl, List.all_eq_true.mpr fun c member => ?_⟩ }
      refine List.all_eq_true.mp legal c ?_
      unfold withoutMark at member
      split_ifs at member
      · exact List.mem_of_mem_tail member
      · exact member

theorem decode_noEscape {bytes : List Byte} (noEscape : ∀ c ∈ bytes, c ≠ 0x25) :
    decodeURLEscapeSequences characters (widen bytes) = widen bytes := by
  have plain : ∀ u ∈ widen bytes, u ≠ 0x25 := by
    intro u member
    obtain ⟨c, inside, rfl⟩ := List.mem_map.mp member
    have facts := forall_byte (fun c => c = 0x25 || c.toUInt16 ≠ 0x25) (by decide) c
    simpa [noEscape c inside] using facts
  have decoded := @decode_plain characters (widen bytes) plain []
  rwa [List.append_nil, decodeURLEscapeSequences.eq_def characters [], List.append_nil] at decoded

/-- The edited parts stand for the changed components. -/
theorem components_edit (legal : setter.isLegal = true) :
    (setter.edit parts).components characters = setter.change (parts.components characters) := by
  cases setter with
  | setUser user =>
    have noEscape : ∀ c ∈ user, c ≠ 0x25 := fun c member => by
      simpa using (Bool.and_eq_true_iff.mp (List.all_eq_true.mp legal c member)).2
    simp only [Setter.edit, Setter.change, Parts.components, Parts.withAuthority,
      decode_noEscape noEscape]
    rfl
  | setPass password =>
    have noEscape : ∀ c ∈ password, c ≠ 0x25 := fun c member => by
      simpa using (Bool.and_eq_true_iff.mp (List.all_eq_true.mp legal c member)).2
    simp only [Setter.edit, Setter.change, Parts.components, Parts.withAuthority,
      decode_noEscape noEscape]
    rfl
  | setHost host =>
    have noEscape : ∀ c ∈ host, c ≠ 0x25 := fun c member => by
      simpa using List.all_eq_true.mp (Bool.and_eq_true_iff.mp legal).2 c member
    simp only [Setter.edit, Setter.change, Parts.components, Parts.withAuthority,
      decode_noEscape noEscape]
    rfl
  | setPort port =>
    have small : port.toNat ≤ 0xffff := Nat.le_of_lt_succ port.toNat_lt
    simp only [Setter.edit, Setter.change, Parts.components, Parts.withAuthority, Option.getD_some,
      portNumber_number small]
    rfl
  | setHostAndPort host port =>
    have noEscape : ∀ c ∈ host, c ≠ 0x25 := fun c member => by
      have taken := (Bool.and_eq_true_iff.mp (Bool.and_eq_true_iff.mp legal).1).2
      simpa using List.all_eq_true.mp taken c member
    simp only [Setter.edit, Setter.change, Parts.components, Parts.withAuthority,
      decode_noEscape noEscape]
    rfl
  | setQuery query => cases query <;> rfl
  | setFragmentIdentifier fragment => rfl
  | removePort => rfl
  | removeFragmentIdentifier => rfl

theorem edit_path : (setter.edit parts).path = parts.path := by
  cases setter <;> rfl

end

/-! The effect of a call. -/

/-- The user, the password, the host and the port as they stand in the text. -/
def KURL.rawAuthority (url : KURL) : Text :=
  url.substring url.userStart (url.portEnd - url.userStart)

/-- The call gives a valid URL that has the new value, and nothing else changes. -/
def Setter.ChangesOnly (characters : Characters) (url : KURL) (setter : Setter) : Prop :=
  (setter.apply url).isValid = true ∧
    (setter.apply url).components characters = setter.change (url.components characters)

section
variable {characters : Characters} {url : List Byte} {parts : Parts} {setter : Setter}

theorem assemble_rawAuthority (has : parts.hasAuthority = true) (notFile : parts.isFile = false) :
    (KURL.assemble url parts).rawAuthority = widen parts.authority.text := by
  have front : parts.userStart ++ parts.authority.text <+: parts.fragmentEnd url := by
    rw [cut_userStart has notFile, ← List.append_assoc]
    exact List.prefix_append _ _
  have middle := @substring_eq (KURL.assemble url parts) _ _ _ rfl front
  have length : (KURL.assemble url parts).portEnd - (KURL.assemble url parts).userStart =
      parts.authority.text.length := by
    show parts.portEnd.length - parts.userStart.length = _
    rw [Parts.portEnd_eq has, hostEnd_eq notFile, Parts.userInfo_eq notFile, Authority.text]
    simp only [List.length_append]
    omega
  rw [KURL.rawAuthority, length]
  exact middle

theorem Parts.IsWeb.parse_text (web : parts.IsWeb) : KURL.parse parts.text = KURL.assemble parts.text parts := by
  rw [KURL.parse, web.splitURL_text]

/-- The components of a canonical text. -/
theorem Parts.IsWeb.components_text (web : parts.IsWeb) :
    (KURL.parse parts.text).components characters =
      { parts.components characters with
        path := decodeURLEscapeSequences characters (widen (copyPathRemovingDots parts.path)) } := by
  rw [web.parse_text, components_assemble web.notFile, web.canonical_text]
  rfl

theorem path_change (components : Components) :
    (setter.change components).path = components.path := by
  cases setter <;> rfl

end

/-- An `http` URL with a host, and the parts of its canonical text. -/
structure Hosted (url : List Byte) (parts : Parts) : Prop where
  has : parts.hasAuthority = true
  notFile : parts.isFile = false
  hosted : parts.authority.host ≠ []
  isWeb : (parts.canonical url).IsWeb

section
variable {characters : Characters} {url : List Byte} {parts : Parts} {setter : Setter}

theorem hasAuthority_of_host (notFile : parts.isFile = false) (hosted : parts.authority.host ≠ []) :
    parts.hasAuthority = true := by
  rw [Parts.hasAuthority, if_neg (by rw [notFile]; exact Bool.false_ne_true)]
  simp [hosted]

theorem Hosted.of_parse (noEnd : 0 ∉ url) (valid : (KURL.parse url).isValid = true)
    (web : (KURL.parse url).protocolInHTTPFamily = true) (hosted : (KURL.parse url).rawHost ≠ []) :
    ∃ parts, KURL.parse url = KURL.assemble url parts ∧ Hosted url parts := by
  unfold KURL.parse at valid web hosted ⊢
  cases split : splitURL url with
  | none =>
    rw [split] at valid
    cases valid
  | some parts =>
    rw [split] at web hosted
    obtain ⟨-, -, -, -, -, -, -, -, isFile, isFamily⟩ := splitURL_parts split
    have family : parts.protocolInHTTPFamily = true := web
    have notFile : parts.isFile = false := by
      rw [isFile, notFile_of_family (by rw [← isFamily, family]), Bool.and_false]
    have some : parts.authority.host ≠ [] := by
      intro none
      apply hosted
      show (KURL.assemble url parts).rawHost = []
      rw [assemble_rawHost notFile, none]
      rfl
    exact ⟨parts, rfl, hasAuthority_of_host notFile some, notFile, some,
      Parts.canonical_isWeb split noEnd family some⟩

/-- A canonical text with a host. -/
theorem Hosted.of_isWeb (web : parts.IsWeb) (hosted : parts.authority.host ≠ []) :
    Hosted parts.text parts := by
  refine ⟨hasAuthority_of_host web.notFile hosted, web.notFile, hosted, ?_⟩
  rw [web.canonical_text]
  refine { web with path := List.all_eq_true.mpr fun c member => ?_, slash := ?_ }
  · exact List.all_eq_true.mp web.path c (mem_copyPathRemovingDots member)
  · exact copyPathRemovingDots_head web.slash

theorem Hosted.apply_eq (hosted : Hosted url parts) (legal : setter.isLegal = true)
    (parsed : ¬(setter = .removePort ∧ parts.authority.port = none)) :
    setter.apply (KURL.assemble url parts) = KURL.parse (setter.edit (parts.canonical url)).text := by
  rw [apply_assemble hosted.has hosted.notFile hosted.isWeb.authority hosted.hosted, if_neg parsed,
    parseString_widen (hosted.isWeb.edit legal).noEnd]

theorem Hosted.port_iff (hosted : Hosted url parts) :
    (KURL.assemble url parts).hostEnd = (KURL.assemble url parts).portEnd ↔
      parts.authority.port = none := by
  show parts.hostEnd.length = parts.portEnd.length ↔ _
  rw [Parts.portEnd_eq hosted.has, List.length_append]
  cases parts.authority.port <;> simp [portText]

theorem Hosted.changesOnly_path (hosted : Hosted url parts) (legal : setter.isLegal = true) :
    setter.ChangesOnly characters (KURL.assemble url parts) ↔
      setter = .removePort ∧ parts.authority.port = none ∨
        copyPathRemovingDots (parts.canonical url).path = (parts.canonical url).path := by
  have components := @components_assemble characters url parts hosted.notFile
  by_cases unparsed : setter = .removePort ∧ parts.authority.port = none
  · have kept : setter.apply (KURL.assemble url parts) = KURL.assemble url parts := by
      rw [apply_assemble hosted.has hosted.notFile hosted.isWeb.authority hosted.hosted, if_pos unparsed]
    refine iff_of_true ?_ (.inl unparsed)
    rw [Setter.ChangesOnly, kept, components, unparsed.1]
    refine ⟨rfl, ?_⟩
    have port : ((parts.canonical url).components characters).port = 0 := by
      show portNumber (parts.authority.port.getD []) = 0
      rw [unparsed.2]
      rfl
    rw [Setter.change, ← port]
  · have web := hosted.isWeb.edit legal
    have valid : (KURL.parse (setter.edit (parts.canonical url)).text).isValid = true := by
      rw [web.parse_text]
      rfl
    have changed : (KURL.parse (setter.edit (parts.canonical url)).text).components characters =
        { setter.change ((parts.canonical url).components characters) with
          path := decodeURLEscapeSequences characters
            (widen (copyPathRemovingDots (parts.canonical url).path)) } := by
      rw [web.components_text, components_edit legal, edit_path]
    rw [Setter.ChangesOnly, hosted.apply_eq legal unparsed, components, changed]
    rw [← @decode_copyPathRemovingDots characters _ hosted.isWeb.slash]
    constructor
    · intro only
      refine .inr ?_
      have path := congrArg Components.path only.2
      rw [path_change] at path
      exact path
    · intro same
      refine ⟨valid, ?_⟩
      rw [same.resolve_left unparsed]
      cases setter <;> rfl

/-- Another path changes nothing of the authority. -/
theorem edit_authority (path : List Byte) :
    (setter.edit { parts with path }).authority = (setter.edit parts).authority := by
  cases setter <;> rfl

/-- After two calls the authority in the text is that of the edited parts. -/
theorem Hosted.rawAuthority_twice (hosted : Hosted url parts) {first second : Setter}
    (legalFirst : first.isLegal = true) (legalSecond : second.isLegal = true)
    (parsedFirst : first ≠ .removePort) (parsedSecond : second ≠ .removePort)
    (hostFirst : (first.edit (parts.canonical url)).authority.host ≠ [])
    (hostSecond : (second.edit (first.edit (parts.canonical url))).authority.host ≠ []) :
    (second.apply (first.apply (KURL.assemble url parts))).rawAuthority =
      widen (second.edit (first.edit (parts.canonical url))).authority.text := by
  have webFirst := hosted.isWeb.edit legalFirst
  have isFirst := Hosted.of_isWeb webFirst hostFirst
  have webSecond := isFirst.isWeb.edit legalSecond
  have host : (second.edit ((first.edit (parts.canonical url)).canonical
      (first.edit (parts.canonical url)).text)).authority.host ≠ [] := by
    rw [webFirst.canonical_text, edit_authority]
    exact hostSecond
  have isSecond := Hosted.of_isWeb webSecond host
  rw [hosted.apply_eq legalFirst fun both => parsedFirst both.1, webFirst.parse_text,
    isFirst.apply_eq legalSecond fun both => parsedSecond both.1, webSecond.parse_text,
    assemble_rawAuthority isSecond.has isSecond.notFile, webFirst.canonical_text, edit_authority]

theorem noMark_of_clean {authority : Authority} (clean : authority.Clean) (noUser : authority.user = [])
    (noPassword : authority.password = []) : 0x40 ∉ widen authority.text := by
  have host : 0x40 ∉ authority.host := by
    intro inside
    obtain names | ⟨address, shape, chars⟩ := isHost_cases clean.host
    · exact (userInfoChar_facts (hostnameChar_facts (List.all_eq_true.mp names _ inside)).1).2 rfl
    · have isChar := forall_byte (fun c => !isIPv6Char c || c ≠ 0x40) (by decide)
      rw [shape, List.mem_cons, List.mem_append, List.mem_singleton] at inside
      obtain bracket | member | bracket := inside
      · revert bracket
        decide
      · have facts := isChar 0x40
        rw [List.all_eq_true.mp chars _ member] at facts
        revert facts
        decide
      · revert bracket
        decide
  have port : 0x40 ∉ portText authority.port := by
    have digits := clean.port
    cases shape : authority.port with
    | none => exact List.not_mem_nil
    | some port =>
      rw [shape] at digits
      rw [portText, List.mem_cons, not_or]
      exact ⟨by decide, fun inside => (digit_facts (List.all_eq_true.mp digits _ inside)).2.2.1 rfl⟩
  have text : authority.text = authority.host ++ portText authority.port := by
    rw [Authority.text, Authority.userInfo, Authority.passwordText, noUser, noPassword]
    rfl
  rw [text]
  intro inside
  obtain ⟨c, member, wide⟩ := List.mem_map.mp inside
  have facts := forall_byte (fun c => c = 0x40 || c.toUInt16 ≠ 0x40) (by decide) c
  simp only [wide, ne_eq, not_true, decide_false, Bool.or_false, decide_eq_true_eq] at facts
  rw [facts, List.mem_append] at member
  exact member.elim host port

/-- Without a user and a password there is no mark, whichever is taken away first. -/
theorem Hosted.noMark (hosted : Hosted url parts) :
    0x40 ∉ (((KURL.assemble url parts).setUser []).setPass []).rawAuthority ∧
      0x40 ∉ (((KURL.assemble url parts).setPass []).setUser []).rawAuthority := by
  have clean : ({ (parts.canonical url).authority with user := [], password := [] } : Authority).Clean :=
    { hosted.isWeb.authority with user := rfl, password := rfl }
  have userFirst := @Hosted.rawAuthority_twice url parts hosted (.setUser []) (.setPass []) rfl rfl nofun
    nofun hosted.hosted hosted.hosted
  have passFirst := @Hosted.rawAuthority_twice url parts hosted (.setPass []) (.setUser []) rfl rfl nofun
    nofun hosted.hosted hosted.hosted
  constructor
  · show 0x40 ∉ ((Setter.setPass []).apply ((Setter.setUser []).apply (KURL.assemble url parts))).rawAuthority
    rw [userFirst]
    exact noMark_of_clean clean rfl rfl
  · show 0x40 ∉ ((Setter.setUser []).apply ((Setter.setPass []).apply (KURL.assemble url parts))).rawAuthority
    rw [passFirst]
    exact noMark_of_clean clean rfl rfl

/-- The URL has a host after the call. -/
def Setter.keepsHost : Setter → Bool
  | .setHost host => host ≠ []
  | .setHostAndPort host _ => host ≠ []
  | _ => true

theorem edit_host (hosted : parts.authority.host ≠ []) (keeps : setter.keepsHost = true) :
    (setter.edit parts).authority.host ≠ [] := by
  cases setter with
  | setHost host => exact of_decide_eq_true keeps
  | setHostAndPort host port => exact of_decide_eq_true keeps
  | _ => exact hosted

/-- Calls compose where no dots are left in the path. -/
theorem Hosted.components_foldl (hosted : Hosted url parts)
    (stable : copyPathRemovingDots (parts.canonical url).path = (parts.canonical url).path)
    {setters : List Setter} (legal : ∀ setter ∈ setters, setter.isLegal = true)
    (keeps : ∀ setter ∈ setters, setter.keepsHost = true) :
    (setters.foldl Setter.apply (KURL.assemble url parts)).components characters =
      setters.foldl Setter.change ((KURL.assemble url parts).components characters) := by
  induction setters generalizing url parts with
  | nil => rfl
  | cons setter setters ih =>
    have legalFirst := legal setter List.mem_cons_self
    have legalRest := fun setter member => legal setter (List.mem_cons_of_mem _ member)
    have keepsRest := fun setter member => keeps setter (List.mem_cons_of_mem _ member)
    have only := (@changesOnly_path characters url parts setter hosted legalFirst).mpr (.inr stable)
    rw [List.foldl_cons, List.foldl_cons, ← only.2]
    by_cases unparsed : setter = .removePort ∧ parts.authority.port = none
    · rw [apply_assemble hosted.has hosted.notFile hosted.isWeb.authority hosted.hosted, if_pos unparsed]
      exact ih hosted stable legalRest keepsRest
    · have web := hosted.isWeb.edit legalFirst
      have host := @edit_host (parts.canonical url) setter hosted.hosted (keeps setter List.mem_cons_self)
      rw [hosted.apply_eq legalFirst unparsed, web.parse_text]
      refine ih (Hosted.of_isWeb web host) ?_ legalRest keepsRest
      rw [web.canonical_text]
      show copyPathRemovingDots (copyPathRemovingDots _) = copyPathRemovingDots _
      rw [edit_path, stable, stable]

end

/-- A call changes its component and nothing else, unless dots are removed from the path, which a URL
only has where a tab or an end of a line was between them. Without a user and a password there is no
mark. -/
theorem changesOnly_iff (characters : Characters) (text : List Byte)
    (valid : (KURL.parse (cString text)).isValid = true)
    (web : (KURL.parse (cString text)).protocolInHTTPFamily = true)
    (hosted : (KURL.parse (cString text)).rawHost ≠ []) :
    (∀ setter : Setter, setter.isLegal = true →
      (setter.ChangesOnly characters (KURL.parse (cString text)) ↔
        setter = .removePort ∧
            (KURL.parse (cString text)).hostEnd = (KURL.parse (cString text)).portEnd ∨
          copyPathRemovingDots (narrow (KURL.parse (cString text)).rawPath) =
            narrow (KURL.parse (cString text)).rawPath)) ∧
    0x40 ∉ (((KURL.parse (cString text)).setUser []).setPass []).rawAuthority ∧
    0x40 ∉ (((KURL.parse (cString text)).setPass []).setUser []).rawAuthority := by
  obtain ⟨parts, parsed, is⟩ := Hosted.of_parse (cString_noEnd text) valid web hosted
  rw [parsed]
  refine ⟨fun setter legal => ?_, is.noMark⟩
  rw [is.changesOnly_path legal, is.port_iff, assemble_rawPath, narrow_widen]

theorem changesOnly_iff_host :
    (Setter.setHost (ascii "g")).ChangesOnly utf8
      (KURL.parse (cString (ascii "http://u:p@h:80/a?b#c"))) := by
  have changes := (changesOnly_iff utf8 (ascii "http://u:p@h:80/a?b#c") (by decide)
    (by decide) (by decide)).1 (.setHost (ascii "g")) (by decide)
  exact changes.mpr (.inr (by decide))

/-- Calls one after the other change the components as each of them alone would. -/
theorem components_setters (characters : Characters) (text : List Byte)
    (valid : (KURL.parse (cString text)).isValid = true)
    (web : (KURL.parse (cString text)).protocolInHTTPFamily = true)
    (hosted : (KURL.parse (cString text)).rawHost ≠ [])
    (stable : copyPathRemovingDots (narrow (KURL.parse (cString text)).rawPath) =
      narrow (KURL.parse (cString text)).rawPath) (setters : List Setter)
    (legal : ∀ setter ∈ setters, setter.isLegal = true)
    (keeps : ∀ setter ∈ setters, setter.keepsHost = true) :
    (setters.foldl Setter.apply (KURL.parse (cString text))).components characters =
      setters.foldl Setter.change ((KURL.parse (cString text)).components characters) := by
  obtain ⟨parts, parsed, is⟩ := Hosted.of_parse (cString_noEnd text) valid web hosted
  rw [parsed, assemble_rawPath, narrow_widen] at stable
  rw [parsed]
  exact is.components_foldl stable legal keeps

theorem components_setters_host :
    let url := KURL.parse (cString (ascii "http://u:p@h:80/a?b#c"))
    let setters : List Setter := [.setHost (ascii "g"), .removePort, .setUser []]
    (setters.foldl Setter.apply url).components utf8 = setters.foldl Setter.change (url.components utf8) :=
  components_setters utf8 _ (by decide) (by decide) (by decide) (by decide) _ (by decide) (by decide)

/-- A tab between two dots is dropped after the dots were looked for, and the next call finds them. -/
theorem not_changesOnly :
    ¬∀ (characters : Characters) (text : List Byte),
      (KURL.parse (cString text)).isValid = true →
      (KURL.parse (cString text)).protocolInHTTPFamily = true →
      (KURL.parse (cString text)).rawHost ≠ [] →
      ∀ setter : Setter, setter.isLegal = true →
        setter.ChangesOnly characters (KURL.parse (cString text)) := by
  intro all
  let text := ascii "http://h/.\t./x"
  have valid : (KURL.parse (cString text)).isValid = true := by decide
  have web : (KURL.parse (cString text)).protocolInHTTPFamily = true := by decide
  have hosted : (KURL.parse (cString text)).rawHost ≠ [] := by decide
  have only := all utf8 text valid web hosted (.setUser (ascii "u")) (by decide)
  obtain ⟨parts, parsed, is⟩ := Hosted.of_parse (by decide) valid web hosted
  rw [parsed, is.changesOnly_path (by decide)] at only
  have dots : copyPathRemovingDots (narrow (KURL.parse (cString text)).rawPath) ≠
      narrow (KURL.parse (cString text)).rawPath := by
    decide
  rw [parsed, assemble_rawPath, narrow_widen] at dots
  exact only.elim (fun unparsed => nomatch unparsed.1) dots

end WkcBrowser.Url
