import Mathlib.Data.List.Infix
import WkcBrowser.Url.OriginIdentifiers

/-! Which origins are read back from their texts, and why two of these never have a text in common. -/

namespace WkcBrowser.Url

open Lib Wtf

/-- A URL of a scheme that needs an authority, with a host. -/
def KURL.IsWeb (characters : Characters) (url : KURL) : Prop :=
  url.isValid = true ∧
    lower characters url.protocol ∈ [literal "http", literal "https", literal "ftp"] ∧
    url.host characters ≠ []

/-- The two texts of two origins tell these apart, and give them back. -/
structure Faithful (characters : Characters) (origin other : SecurityOrigin) : Prop where
  toString_eq : origin.toString = other.toString ↔ origin.isSameSchemeHostPort other = true
  databaseIdentifier_eq : origin.databaseIdentifier = other.databaseIdentifier ↔
    origin.isSameSchemeHostPort other = true
  fromString : ∀ origin' ∈ [origin, other],
    (SecurityOrigin.createFromString characters origin'.toString).isSameSchemeHostPort origin' = true
  fromDatabaseIdentifier : ∀ origin' ∈ [origin, other],
    (SecurityOrigin.createFromDatabaseIdentifier characters
      origin'.databaseIdentifier).isSameSchemeHostPort origin' = true

/-- A host that the parser takes as it is, and that decoding does not change. -/
def Plain (characters : Characters) (host : Text) : Prop :=
  host.all (· ≤ 0x7f) = true ∧ isHost (narrow host) = true ∧
    lower characters (decodeURLEscapeSequences characters host) = host

section
variable {characters : Characters} {origin other : SecurityOrigin} {scheme : List Byte}

theorem isSame_iff : origin.isSameSchemeHostPort other = true ↔
    origin.protocol = other.protocol ∧ origin.host = other.host ∧ origin.port = other.port := by
  simp only [SecurityOrigin.isSameSchemeHostPort, Bool.and_eq_true, decide_eq_true_eq]
  tauto

/-- What the constructor makes of such a URL. -/
structure SecurityOrigin.IsWeb (origin : SecurityOrigin) (scheme : List Byte) : Prop where
  web : scheme ∈ webSchemes
  protocol_eq : origin.protocol = widen scheme
  some_host : origin.host ≠ []
  port_le : origin.port ≤ 0xffff
  notDefault : isDefaultPortForProtocol origin.port origin.protocol = false
  access : origin.noAccess = false
  notSandboxed : origin.sandboxed = false

theorem port_le (url : KURL) : url.port ≤ 0xffff := by
  unfold KURL.port
  split
  · exact Nat.zero_le _
  · split
    · exact le_rfl
    · split
      · exact le_rfl
      · rename_i number bound
        rw [maximumValidPortNumber] at bound
        omega

/-- The protocols that need an authority are none of those with rules of their own. -/
theorem protocol_facts (web : scheme ∈ webSchemes) :
    widen scheme ≠ literal "about" ∧ widen scheme ≠ literal "javascript" ∧
      shouldTreatURLSchemeAsNoAccess (widen scheme) = false ∧
      shouldTreatURLSchemeAsLocal (widen scheme) = false ∧
      isDefaultPortForProtocol 0 (widen scheme) = false ∧ widen scheme ≠ [] ∧
      widen scheme ≠ literal "file" := by
  have all : ∀ scheme ∈ webSchemes, widen scheme ≠ literal "about" ∧
      widen scheme ≠ literal "javascript" ∧ shouldTreatURLSchemeAsNoAccess (widen scheme) = false ∧
      shouldTreatURLSchemeAsLocal (widen scheme) = false ∧
      isDefaultPortForProtocol 0 (widen scheme) = false ∧ widen scheme ≠ [] ∧
      widen scheme ≠ literal "file" := by
    decide
  exact all scheme web

theorem lower_protocol (web : scheme ∈ webSchemes) :
    lower characters (widen scheme) = widen scheme := by
  have all : ∀ scheme ∈ webSchemes, (widen scheme).all (· ≤ 0x7f) = true ∧
      (widen scheme).map toASCIILower = widen scheme := by
    decide
  obtain ⟨small, same⟩ := all scheme web
  rw [lower, if_pos small, same]

/-- The origin of a URL whose protocol needs an authority. -/
theorem create_web {url : KURL} (web : scheme ∈ webSchemes) (valid : url.isValid = true)
    (protocol : lower characters url.protocol = widen scheme)
    (some_host : url.host characters ≠ []) :
    (SecurityOrigin.create characters url).IsWeb scheme ∧
      (SecurityOrigin.create characters url).host = lower characters (url.host characters) ∧
      (SecurityOrigin.create characters url).port =
        if isDefaultPortForProtocol url.port (widen scheme) then 0 else url.port := by
  obtain ⟨about, script, data, localFile, zero, some_protocol, file⟩ := protocol_facts web
  have kept : (SecurityOrigin.ofURL characters url).protocol = widen scheme := by
    simp [SecurityOrigin.ofURL, protocol, about, script]
  have port : (SecurityOrigin.ofURL characters url).port =
      if isDefaultPortForProtocol url.port (widen scheme) then 0 else url.port := by
    simp [SecurityOrigin.ofURL, protocol, about, script]
  have some_name : lower characters (url.host characters) ≠ [] := by
    rw [ne_eq, ← List.length_eq_zero_iff, length_lower, List.length_eq_zero_iff]
    exact some_host
  have created : SecurityOrigin.create characters url = SecurityOrigin.ofURL characters url := by
    rw [SecurityOrigin.create, valid]
    rfl
  rw [created]
  refine ⟨⟨web, kept, some_name, ?_, ?_, ?_, rfl⟩, rfl, port⟩
  · rw [port]
    split
    · exact Nat.zero_le _
    · exact port_le url
  · rw [kept, port]
    split
    · exact zero
    · rename_i other
      exact Bool.not_eq_true _ ▸ other
  · simp [SecurityOrigin.ofURL, protocol, about, script, data, localFile, some_name]

namespace SecurityOrigin.IsWeb

/-- What is written behind the host. -/
def portOption (port : Nat) : Option (List Byte) :=
  if port ≠ 0 then some (narrow (number port)) else none

theorem toString_eq (web : origin.IsWeb scheme) :
    origin.toString = webText scheme (origin.host ++ widen (portText (portOption origin.port))) := by
  obtain ⟨-, -, -, -, -, some_protocol, file⟩ := protocol_facts web.web
  have digits : widen (narrow (number origin.port)) = number origin.port := by
    refine widen_narrow fun c member => ?_
    exact UInt16.le_trans (digit_of_mem_number member).2 (by decide)
  unfold SecurityOrigin.toString
  rw [web.protocol_eq, web.access, web.notSandboxed, if_neg (by simp [some_protocol]),
    Bool.or_false, if_neg Bool.false_ne_true, if_neg file, webText, List.append_assoc,
    List.append_assoc, List.append_assoc]
  by_cases absent : origin.port = 0
  · rw [portOption, if_neg (not_not.mpr absent), if_neg (not_not.mpr absent)]
    rfl
  · rw [portOption, if_pos absent, if_pos absent]
    change _ = _ ++ (_ ++ (_ ++ 0x3a :: widen (narrow (number origin.port))))
    rw [digits]
    rfl

/-- The separators are found where they are written, whatever is in the host. -/
theorem createFromDatabaseIdentifier_eq (web : origin.IsWeb scheme) :
    SecurityOrigin.createFromDatabaseIdentifier characters origin.databaseIdentifier =
      SecurityOrigin.create characters (KURL.create characters
        (webText scheme (origin.host ++ 0x3a :: number origin.port))) := by
  have none : ∀ scheme ∈ webSchemes, ∀ c ∈ widen scheme, decide (c = 0x5f) = false :=
    forall_webSchemes (forall_mem_of_all rfl) (forall_mem_of_all rfl) (forall_mem_of_all rfl)
  have noSeparator : ∀ c ∈ (number origin.port).reverse, decide (c ≠ 0x5f) = true := by
    intro c member
    have high := (digit_of_mem_number (List.mem_reverse.mp member)).2
    rw [decide_eq_true_eq]
    rintro rfl
    exact absurd high (by decide)
  have text : origin.databaseIdentifier =
      widen scheme ++ 0x5f :: (origin.host ++ 0x5f :: number origin.port) := by
    simp [SecurityOrigin.databaseIdentifier, web.protocol_eq, SecurityOrigin.separatorCharacter]
  have length : origin.databaseIdentifier.length =
      (widen scheme).length + 1 + origin.host.length + 1 + (number origin.port).length := by
    rw [text, List.length_append, List.length_cons, List.length_append, List.length_cons]
    omega
  have first : origin.databaseIdentifier.findIdx? (· = SecurityOrigin.separatorCharacter) =
      some (widen scheme).length := by
    rw [SecurityOrigin.separatorCharacter, text, List.findIdx?_append,
      List.findIdx?_eq_none_iff.mpr (none scheme web.web), List.findIdx?_cons, decide_eq_true rfl,
      if_pos rfl]
    simp
  have last : (origin.databaseIdentifier.reverse.takeWhile
      (· ≠ SecurityOrigin.separatorCharacter)).length = (number origin.port).length := by
    have reversed : origin.databaseIdentifier.reverse = (number origin.port).reverse ++
        0x5f :: (widen scheme ++ 0x5f :: origin.host).reverse := by
      rw [text]
      simp
    rw [reversed, SecurityOrigin.separatorCharacter, takeWhile_append_leading noSeparator,
      List.takeWhile_cons_of_neg (by simp), List.append_nil, List.length_reverse]
  have second : origin.databaseIdentifier.length - 1 - (number origin.port).length =
      (widen scheme).length + 1 + origin.host.length := by omega
  have digits : origin.databaseIdentifier.drop ((widen scheme).length + 1 + origin.host.length + 1) =
      number origin.port := by
    have front : origin.databaseIdentifier =
        (widen scheme ++ 0x5f :: (origin.host ++ [0x5f])) ++ number origin.port := by
      rw [text]
      simp
    rw [front, List.drop_left']
    simp only [List.length_append, List.length_cons, List.length_nil]
    omega
  have protocol : origin.databaseIdentifier.take (widen scheme).length = widen scheme := by
    rw [text, List.take_left]
  have host : (origin.databaseIdentifier.drop ((widen scheme).length + 1)).take
      ((widen scheme).length + 1 + origin.host.length - (widen scheme).length - 1) = origin.host := by
    have length : (widen scheme).length + 1 + origin.host.length - (widen scheme).length - 1 =
        origin.host.length := by omega
    have front : origin.databaseIdentifier =
        (widen scheme ++ [0x5f]) ++ (origin.host ++ 0x5f :: number origin.port) := by
      rw [text]
      simp
    rw [length, front, List.drop_left' (by simp), List.take_left]
  have bound := web.port_le
  unfold SecurityOrigin.createFromDatabaseIdentifier
  rw [first]
  dsimp only
  rw [last, second, digits, protocol, host, toInt_number (by omega), if_neg (by omega)]
  simp only [Option.isSome_some, Bool.true_or, Bool.not_true, Bool.false_eq_true, if_false,
    Option.getD_some]
  rw [if_neg (by omega), webText, Int.toNat_natCast]
  simp [literal, widen, ascii]

end SecurityOrigin.IsWeb

theorem widen_facts {bytes : List Byte} (facts : ∀ c ∈ bytes, c ≤ 0x7f ∧ c ≠ 0x5c) :
    ∀ c ∈ widen bytes, c ≤ 0x7f ∧ c ≠ 0x5c := by
  intro c member
  obtain ⟨byte, inBytes, rfl⟩ := List.mem_map.mp member
  obtain ⟨small, noSlash⟩ := facts byte inBytes
  constructor
  · rw [UInt8.le_iff_toNat_le] at small
    rw [UInt16.le_iff_toNat_le, UInt8.toNat_toUInt16]
    exact small
  · intro slash
    refine noSlash (UInt8.toNat_inj.mp ?_)
    rw [← UInt8.toNat_toUInt16, slash]
    rfl

/-- Bytes that mean nothing special are parsed as they are. -/
theorem create_bytes (web : scheme ∈ webSchemes) {bytes : List Byte}
    (facts : ∀ c ∈ bytes, c ≤ 0x7f ∧ c ≠ 0 ∧ c ≠ 0x20 ∧ c ≠ 0x5c) :
    KURL.create characters (webText scheme (widen bytes)) =
      KURL.parse (scheme ++ afterScheme bytes) := by
  have chars := widen_facts fun c member => ⟨(facts c member).1, (facts c member).2.2.2⟩
  have created : KURL.create characters (webText scheme (widen bytes)) = _ :=
    create_plain web (by simpa using fun c member => (chars c member).1)
      (fun c member => (chars c member).2) (by
        rw [narrow_widen]
        exact fun c member => (facts c member).2.1) (by
        rw [narrow_widen]
        exact fun space => (facts _ (List.mem_of_getLast? space)).2.2.1 rfl)
  rw [created, narrow_widen]

theorem portText_facts {port : Option (List Byte)}
    (digits : (port.getD []).all isASCIIDigit = true) :
    ∀ c ∈ portText port, c ≤ 0x7f ∧ c ≠ 0 ∧ c ≠ 0x20 ∧ c ≠ 0x5c := by
  cases port with
  | none => exact fun c member => absurd member List.not_mem_nil
  | some ds =>
    refine List.forall_mem_cons.mpr ⟨by decide, fun c member => ?_⟩
    have digit := List.all_eq_true.mp digits c member
    obtain ⟨-, -, -, le, null, space⟩ := digit_facts digit
    refine ⟨le, null, space, ?_⟩
    rintro rfl
    exact absurd digit (by decide)

/-- An origin with a plain host is read back from its host and its port. -/
theorem create_plain_host (web : origin.IsWeb scheme) (plain : Plain characters origin.host)
    {port : Option (List Byte)} (digits : (port.getD []).all isASCIIDigit = true)
    (same : portNumber (port.getD []) = origin.port) :
    (SecurityOrigin.create characters (KURL.create characters
      (webText scheme (origin.host ++ widen (portText port))))).isSameSchemeHostPort origin =
        true := by
  obtain ⟨small, taken, decoded⟩ := plain
  have back : widen (narrow origin.host) = origin.host := widen_narrow (by simpa using small)
  have some_host : narrow origin.host ≠ [] := by
    rw [narrow, ne_eq, List.map_eq_nil_iff]
    exact web.some_host
  have facts : ∀ c ∈ narrow origin.host ++ portText port,
      c ≤ 0x7f ∧ c ≠ 0 ∧ c ≠ 0x20 ∧ c ≠ 0x5c := by
    intro c member
    obtain inHost | inPort := List.mem_append.mp member
    · exact (isHost_facts taken c inHost).2
    · exact portText_facts digits c inPort
  have created : KURL.create characters _ = _ := create_bytes web.web facts
  rw [widen_append, back] at created
  obtain ⟨valid, protocol, rawHost, port_eq⟩ := parse_host web.web taken some_host digits
  rw [back] at rawHost
  generalize KURL.parse (scheme ++ afterScheme (narrow origin.host ++ portText port)) = url at *
  have name : lower characters (url.host characters) = origin.host := by
    rw [← decoded]
    exact congrArg (fun raw => lower characters (decodeURLEscapeSequences characters raw)) rawHost
  have some_name : url.host characters ≠ [] := by
    intro none
    rw [none] at name
    exact web.some_host (List.length_eq_zero_iff.mp (by rw [← name, length_lower]; rfl))
  obtain ⟨again, host, port⟩ := create_web web.web valid
    (by rw [protocol, lower_protocol web.web]) some_name
  rw [created, isSame_iff, again.protocol_eq, web.protocol_eq, host, name, port, port_eq, same]
  have notDefault := web.notDefault
  rw [web.protocol_eq] at notDefault
  rw [notDefault]
  exact ⟨rfl, rfl, if_neg Bool.false_ne_true⟩

/-! The two ways to write the port. -/

theorem narrow_number_facts (n : Nat) : (narrow (number n)).all isASCIIDigit = true ∧
    widen (narrow (number n)) = number n := by
  refine ⟨?_, widen_narrow fun c member => ?_⟩
  · rw [List.all_eq_true]
    intro c member
    obtain ⟨char, inNumber, rfl⟩ := List.mem_map.mp member
    obtain ⟨low, high⟩ := digit_of_mem_number inNumber
    rw [UInt16.le_iff_toNat_le] at low high
    simp only [isASCIIDigit, UInt8.le_iff_toNat_le, UInt16.toNat_toUInt8]
    simp at low high ⊢
    omega
  · exact UInt16.le_trans (digit_of_mem_number member).2 (by decide)

theorem portNumber_number {n : Nat} (bound : n ≤ 0xffff) : portNumber (narrow (number n)) = n := by
  have some_digit : narrow (number n) ≠ [] := by
    rw [narrow, ne_eq, List.map_eq_nil_iff]
    exact number_ne_nil n
  rw [portNumber, if_neg some_digit, (narrow_number_facts n).2,
    toIntegralType_number (by omega)]
  change (if (n : Int) > maximumValidPortNumber then invalidPortNumber else (n : Int).toNat) = n
  rw [maximumValidPortNumber, invalidPortNumber]
  split <;> omega

theorem createFromString_plain (web : origin.IsWeb scheme) (plain : Plain characters origin.host) :
    (SecurityOrigin.createFromString characters origin.toString).isSameSchemeHostPort origin =
      true := by
  rw [SecurityOrigin.createFromString, web.toString_eq]
  refine create_plain_host web plain ?_ ?_ <;>
    unfold SecurityOrigin.IsWeb.portOption <;> split
  · exact (narrow_number_facts _).1
  · rfl
  · exact portNumber_number web.port_le
  · rename_i absent
    rw [not_not.mp absent]
    rfl

theorem createFromDatabaseIdentifier_plain (web : origin.IsWeb scheme)
    (plain : Plain characters origin.host) :
    (SecurityOrigin.createFromDatabaseIdentifier characters
      origin.databaseIdentifier).isSameSchemeHostPort origin = true := by
  have text : 0x3a :: number origin.port = widen (portText (some (narrow (number origin.port)))) :=
    congrArg (0x3a :: ·) (narrow_number_facts _).2.symm
  rw [web.createFromDatabaseIdentifier_eq, text]
  exact create_plain_host web plain (narrow_number_facts _).1 (portNumber_number web.port_le)

/-! An identifier is read back for a plain host only. -/

/-- The host cannot reach into the port. -/
theorem host_before_port {before host after hostBytes digits : List Byte}
    (ending : before = [] ∨ before.getLast? = some 0x40) (taken : isHost host = true)
    (some_host : host ≠ []) (isPort : ∀ c ∈ digits, isASCIIDigit c = true)
    (front : before ++ host ++ after <+: hostBytes ++ 0x3a :: digits) :
    before ++ host <+: hostBytes := by
  have marks : ∀ c ∈ 0x3a :: digits, c ≠ 0x5d ∧ c ≠ 0x40 := by
    refine List.forall_mem_cons.mpr ⟨by decide, fun c member => ?_⟩
    obtain ⟨-, bracket, mark, -⟩ := digit_facts (isPort c member)
    exact ⟨bracket, mark⟩
  -- A colon is in an address only, and an address ends in a bracket.
  have noColon : ∀ start later, host = start ++ 0x3a :: later → later <+: digits → False := by
    intro start later split within
    have colon : (0x3a : Byte) ∈ host := by
      rw [split]
      simp
    obtain names | ⟨inside, rfl, -⟩ := isHost_cases taken
    · exact (hostnameChar_facts (List.all_eq_true.mp names _ colon)).2.2.1 rfl
    · have last : (start ++ 0x3a :: later).getLast? = some 0x5d := by
        rw [← split, ← List.cons_append, List.getLast?_concat]
      rw [List.getLast?_append_of_ne_nil _ (List.cons_ne_nil _ _)] at last
      have member := List.mem_of_getLast? last
      refine (marks 0x5d ?_).1 rfl
      obtain first | rest := List.mem_cons.mp member
      · exact absurd first (by decide)
      · exact List.mem_cons_of_mem _ (within.subset rest)
  obtain within | ⟨middle, split⟩ := List.prefix_or_prefix_of_prefix
    ((List.prefix_append _ after).trans front) (List.prefix_append hostBytes (0x3a :: digits))
  · exact within
  · have inPort : middle <+: 0x3a :: digits := by
      rw [← split, List.append_assoc, List.prefix_append_right_inj] at front
      exact (List.prefix_append _ after).trans front
    obtain rfl | ⟨later, rfl, inDigits⟩ := List.prefix_cons_iff.mp inPort
    · rw [← split, List.append_nil]
    · exfalso
      obtain ⟨start, -, tail⟩ | ⟨start, front, tail⟩ := List.append_eq_append_iff.mp split.symm
      · exact noColon start later tail inDigits
      · by_cases nothing : start = []
        · rw [nothing, List.nil_append] at tail
          exact noColon [] later tail.symm inDigits
        · have last : before.getLast? = some 0x40 := by
            refine ending.resolve_left fun none => nothing ?_
            rw [none] at front
            exact (List.append_eq_nil_iff.mp front.symm).2
          rw [front, List.getLast?_append_of_ne_nil _ nothing] at last
          have member : (0x40 : Byte) ∈ 0x3a :: later := by
            rw [tail]
            exact List.mem_append_left _ (List.mem_of_getLast? last)
          obtain first | rest := List.mem_cons.mp member
          · exact absurd first (by decide)
          · exact (marks 0x40 (List.mem_cons_of_mem _ (inDigits.subset rest))).2 rfl

/-- What is read back has as many characters as the host, so nothing of the host was escaped. -/
theorem plain_of_back (lawful : characters.Lawful) (web : origin.IsWeb scheme)
    (back : (SecurityOrigin.createFromDatabaseIdentifier characters
      origin.databaseIdentifier).host = origin.host) : Plain characters origin.host := by
  have small : ∀ c ∈ number origin.port, c ≤ 0x7f := fun c member =>
    UInt16.le_trans (digit_of_mem_number member).2 (by decide)
  have noSlash : ∀ c ∈ number origin.port, c ≠ 0x5c := by
    rintro c member rfl
    exact absurd (digit_of_mem_number member).2 (by decide)
  obtain ⟨parsed, created, hostBytes, within, count, plain⟩ :=
    create_written lawful web.web origin.host small noSlash
  rw [web.createFromDatabaseIdentifier_eq, created, SecurityOrigin.create] at back
  by_cases invalid : (KURL.parse (scheme ++ afterScheme parsed)).isValid = false
  · rw [invalid] at back
    have nothing : decodeURLEscapeSequences characters [] = [] := by
      rw [decodeURLEscapeSequences]
    exact absurd (back.symm.trans (congrArg (lower characters) nothing)) web.some_host
  · have valid : (KURL.parse (scheme ++ afterScheme parsed)).isValid = true := by simpa using invalid
    rw [valid] at back
    obtain ⟨raw, rawHost, cases⟩ := host_of_valid web.web valid
    have name : lower characters (decodeURLEscapeSequences characters (widen raw)) = origin.host := by
      rw [← rawHost, ← back]
      rfl
    have longer : origin.host.length ≤ raw.length := by
      rw [← name, length_lower]
      exact (length_decodeURLEscapeSequences lawful _).trans (by rw [widen, List.length_map])
    have some_raw : raw ≠ [] := by
      rintro rfl
      exact web.some_host (List.length_eq_zero_iff.mp (by simpa using longer))
    obtain ⟨taken, before, after, rfl, ending⟩ := cases.resolve_left some_raw
    have inHost := host_before_port ending taken some_raw
      (List.all_eq_true.mp (narrow_number_facts origin.port).1) within
    have rawSmall : raw.countP (· ≤ 0x7f) = raw.length := by
      rw [List.countP_eq_length]
      intro c member
      simpa using (isHost_facts taken c member).2.1
    have fewer : raw.countP (· ≤ 0x7f) ≤ hostBytes.countP (· ≤ 0x7f) :=
      ((List.suffix_append before raw).sublist.trans inHost.sublist).countP_le
    have most : origin.host.countP (· ≤ 0x7f) ≤ origin.host.length := List.countP_le_length
    have all : origin.host.all (· ≤ 0x7f) = true := by
      have full : origin.host.countP (· ≤ 0x7f) = origin.host.length := by omega
      rw [List.countP_eq_length] at full
      simpa using full
    have lengths : (narrow origin.host).length = origin.host.length ∧
        (narrow (substituteBackslashes origin.host)).length = origin.host.length := by
      refine ⟨List.length_map _, ?_⟩
      rw [narrow, List.length_map, (substituteBackslashes_facts _).1]
    have same : hostBytes = raw := by
      have length : hostBytes.length = origin.host.length := by
        obtain rfl | rfl := plain all
        · exact lengths.1
        · exact lengths.2
      have bound := inHost.length_le
      rw [List.length_append] at bound
      have none : before = [] := List.length_eq_zero_iff.mp (by omega)
      rw [none, List.nil_append] at inHost
      exact (inHost.eq_of_length (by omega)).symm
    have host_eq : narrow origin.host = raw := by
      obtain exact_host | substituted := plain all
      · rw [← same, exact_host]
      · -- A host has no slash, so none was put in.
        have noSlash : (0x2f : UChar) ∉ substituteBackslashes origin.host := by
          intro member
          refine (isHost_facts taken 0x2f ?_).1 rfl
          rw [← same, substituted]
          exact List.mem_map_of_mem member
        rw [← same, substituted, (substituteBackslashes_facts _).2.2.2 noSlash]
    refine ⟨all, host_eq ▸ taken, ?_⟩
    rw [← host_eq, widen_narrow (by simpa using all)] at name
    exact name

/-! Two origins. -/

theorem exists_scheme {url : KURL} (web : url.IsWeb characters) : ∃ scheme ∈ webSchemes,
    (SecurityOrigin.create characters url).IsWeb scheme ∧
      (SecurityOrigin.create characters url).host = lower characters (url.host characters) := by
  obtain ⟨valid, protocol, some_host⟩ := web
  obtain ⟨scheme, inSchemes, same⟩ : ∃ scheme ∈ webSchemes,
      widen scheme = lower characters url.protocol :=
    List.mem_map.mp (show lower characters url.protocol ∈ webSchemes.map widen from protocol)
  obtain ⟨web, host, -⟩ := create_web inSchemes valid same.symm some_host
  exact ⟨scheme, inSchemes, web, host⟩

theorem isSame_trans {a b c : SecurityOrigin} (first : a.isSameSchemeHostPort b = true)
    (second : a.isSameSchemeHostPort c = true) : b.isSameSchemeHostPort c = true := by
  rw [isSame_iff] at first second ⊢
  obtain ⟨protocol, host, port⟩ := first
  rw [← protocol, ← host, ← port]
  exact second

/-- Origins that are read back have no text in common. -/
theorem faithful_of_plain {scheme' : List Byte} (web : origin.IsWeb scheme)
    (otherWeb : other.IsWeb scheme') (plain : Plain characters origin.host)
    (otherPlain : Plain characters other.host) : Faithful characters origin other := by
  have strings := createFromString_plain web plain
  have otherStrings := createFromString_plain otherWeb otherPlain
  have identifiers := createFromDatabaseIdentifier_plain web plain
  have otherIdentifiers := createFromDatabaseIdentifier_plain otherWeb otherPlain
  constructor
  · constructor
    · intro same
      rw [same] at strings
      exact isSame_trans strings otherStrings
    · intro same
      obtain ⟨protocol, host, port⟩ := isSame_iff.mp same
      have schemes : widen scheme = widen scheme' := by
        rw [← web.protocol_eq, ← otherWeb.protocol_eq, protocol]
      rw [web.toString_eq, otherWeb.toString_eq, host, port, webText, webText, schemes]
  · constructor
    · intro same
      rw [same] at identifiers
      exact isSame_trans identifiers otherIdentifiers
    · intro same
      obtain ⟨protocol, host, port⟩ := isSame_iff.mp same
      rw [SecurityOrigin.databaseIdentifier, SecurityOrigin.databaseIdentifier, protocol, host, port]
  · simpa using ⟨strings, otherStrings⟩
  · simpa using ⟨identifiers, otherIdentifiers⟩

/-- The texts of two origins are faithful exactly when both hosts are plain. -/
theorem faithful_iff (lawful : characters.Lawful) {url otherURL : KURL}
    (web : url.IsWeb characters) (otherWeb : otherURL.IsWeb characters) :
    Faithful characters (SecurityOrigin.create characters url)
        (SecurityOrigin.create characters otherURL) ↔
      Plain characters (lower characters (url.host characters)) ∧
        Plain characters (lower characters (otherURL.host characters)) := by
  obtain ⟨scheme, -, isWeb, host⟩ := exists_scheme web
  obtain ⟨scheme', -, otherIsWeb, otherHost⟩ := exists_scheme otherWeb
  rw [← host, ← otherHost]
  constructor
  · intro faithful
    have back := faithful.fromDatabaseIdentifier
    rw [List.forall_mem_cons, List.forall_mem_singleton, isSame_iff, isSame_iff] at back
    exact ⟨plain_of_back lawful isWeb back.1.2.1, plain_of_back lawful otherIsWeb back.2.2.1⟩
  · rintro ⟨plain, otherPlain⟩
    exact faithful_of_plain isWeb otherIsWeb plain otherPlain

end

/-- Services for the characters of ASCII, with the replacement character for all others. -/
def replacing : Characters where
  decodeUTF8 bytes := bytes.map fun b => if b ≤ 0x7f then b.toUInt16 else 0xfffd
  encodeUTF8 text := text.flatMap fun c => if c ≤ 0x7f then [c.toUInt8] else [0xef, 0xbf, 0xbd]
  toLower := toASCIILower

theorem replacing_lawful : replacing.Lawful where
  decode_length bytes := by simp [replacing]
  encode_nil := rfl
  encode_ascii before c after small := by simp [replacing, small]
  encode_other text others b member := by
    obtain ⟨c, inText, inBytes⟩ := List.mem_flatMap.mp member
    rw [if_neg (others c inText)] at inBytes
    have all : ∀ b ∈ ([0xef, 0xbf, 0xbd] : List Byte), ¬b ≤ 0x7f := forall_mem_of_all rfl
    exact all b inBytes

/-- The origins of two sites. -/
theorem faithful_iff_sites :
    let url := KURL.parse (ascii "http://example.com:8080/")
    let otherURL := KURL.parse (ascii "https://[::1]/")
    Faithful replacing (SecurityOrigin.create replacing url)
        (SecurityOrigin.create replacing otherURL) ↔
      Plain replacing (lower replacing (url.host replacing)) ∧
        Plain replacing (lower replacing (otherURL.host replacing)) :=
  faithful_iff replacing_lawful ⟨by decide +kernel, by decide +kernel, by decide +kernel⟩
    ⟨by decide +kernel, by decide +kernel, by decide +kernel⟩

/-- A colon in the host is written as the one before a port. -/
theorem not_faithful :
    let url := KURL.parse (ascii "http://a%3A81/")
    let otherURL := KURL.parse (ascii "http://a:81/")
    url.IsWeb replacing ∧ otherURL.IsWeb replacing ∧
      (SecurityOrigin.create replacing url).toString =
        (SecurityOrigin.create replacing otherURL).toString ∧
      (SecurityOrigin.create replacing url).isSameSchemeHostPort
        (SecurityOrigin.create replacing otherURL) = false ∧
      ¬Faithful replacing (SecurityOrigin.create replacing url)
        (SecurityOrigin.create replacing otherURL) := by
  dsimp only
  have same : (SecurityOrigin.create replacing (KURL.parse (ascii "http://a%3A81/"))).toString =
      (SecurityOrigin.create replacing (KURL.parse (ascii "http://a:81/"))).toString := by
    decide +kernel
  have other : (SecurityOrigin.create replacing
      (KURL.parse (ascii "http://a%3A81/"))).isSameSchemeHostPort (SecurityOrigin.create replacing
        (KURL.parse (ascii "http://a:81/"))) = false := by
    decide +kernel
  refine ⟨⟨by decide +kernel, by decide +kernel, by decide +kernel⟩,
    ⟨by decide +kernel, by decide +kernel, by decide +kernel⟩, same, other, fun faithful => ?_⟩
  rw [faithful.toString_eq.mp same] at other
  cases other

end WkcBrowser.Url
