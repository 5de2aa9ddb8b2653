import WkcBrowser.Network.ResourceHandleManagerSSL
import WkcBrowser.Url.Canonical
import WkcBrowser.Url.EscapeSequences
import WkcBrowser.Url.OriginIdentifiers

/-! The hosts whose certificates are not verified, as the calls of `setAllowServerHost` name them. -/

namespace WkcBrowser.Url

open Wtf

namespace KURL

variable (url : KURL)

def hasPort : Bool := url.hostEnd < url.portEnd

/-- What is behind the colon of the port. -/
def portDigits : Text := url.substring (url.hostEnd + 1) (url.portEnd - url.hostEnd - 1)

end KURL

/-- How `wkcUnicodeToLowerPeer` lowers a character: no other character becomes a digit or a colon. -/
structure Characters.Lowers (characters : Characters) : Prop where
  ascii : ∀ c ≤ 0x7f, characters.toLower c = toASCIILower c
  again : ∀ c, characters.toLower (characters.toLower c) = characters.toLower c
  sign : ∀ c, 0x30 ≤ characters.toLower c → characters.toLower c ≤ 0x3a → characters.toLower c = c

section
variable {characters : Characters} (lowers : characters.Lowers)
include lowers

theorem Characters.Lowers.lower_eq (text : Text) : lower characters text = text.map characters.toLower := by
  unfold lower
  split_ifs with small
  · refine List.map_congr_left fun c member => ?_
    exact (lowers.ascii c (of_decide_eq_true (List.all_eq_true.mp small c member))).symm
  · rfl

theorem Characters.Lowers.lower_append (a b : Text) :
    lower characters (a ++ b) = lower characters a ++ lower characters b := by
  simp only [lowers.lower_eq, List.map_append]

theorem Characters.Lowers.lower_lower (text : Text) :
    lower characters (lower characters text) = lower characters text := by
  rw [lowers.lower_eq, lowers.lower_eq, List.map_map]
  exact List.map_congr_left fun c _ => lowers.again c

/-- A text of digits and colons is what it is lowered to, and nothing else is. -/
theorem Characters.Lowers.lower_eq_signs_iff {text signs : Text}
    (isSign : ∀ c ∈ signs, 0x30 ≤ c ∧ c ≤ 0x3a) : lower characters text = signs ↔ text = signs := by
  rw [lowers.lower_eq]
  induction signs generalizing text with
  | nil => exact List.map_eq_nil_iff
  | cons sign signs ih =>
    obtain ⟨here, behind⟩ := List.forall_mem_cons.mp isSign
    cases text with
    | nil => exact iff_of_false (List.cons_ne_nil _ _).symm (List.cons_ne_nil _ _).symm
    | cons c text =>
      have small : sign ≤ 0x7f := UInt16.le_trans here.2 (by decide)
      have kept : toASCIILower sign = sign := by
        have notCapital : ¬(0x41 ≤ sign ∧ sign ≤ 0x5a) := fun capital =>
          absurd (UInt16.le_trans capital.1 here.2) (by decide)
        exact if_neg notCapital
      have first : characters.toLower c = sign ↔ c = sign := by
        constructor
        · rintro rfl
          exact (lowers.sign c here.1 here.2).symm
        · rintro rfl
          rw [lowers.ascii c small, kept]
      rw [List.map_cons, List.cons.injEq, List.cons.injEq, first, ih behind]

theorem Characters.Lowers.colon_mem_iff (text : Text) :
    0x3a ∈ lower characters text ↔ 0x3a ∈ text := by
  rw [lowers.lower_eq, List.mem_map]
  constructor
  · rintro ⟨c, member, lowered⟩
    have same := lowers.sign c (by rw [lowered]; decide) (by rw [lowered]; exact UInt16.le_refl _)
    rw [← lowered, same]
    exact member
  · intro member
    exact ⟨0x3a, member, lowers.ascii 0x3a (by decide)⟩

end

/-- A text ends in one way behind its last colon. -/
theorem append_colon_inj {a b x y : Text} (noX : 0x3a ∉ x) (noY : 0x3a ∉ y) :
    a ++ 0x3a :: x = b ++ 0x3a :: y ↔ a = b ∧ x = y := by
  constructor
  · simp only [List.append_eq_append_iff, List.cons_eq_append_iff, List.cons_eq_cons]
    rintro (⟨c, rfl, ⟨rfl, -, rfl⟩ | ⟨d, rfl, rfl⟩⟩ | ⟨c, rfl, ⟨rfl, -, rfl⟩ | ⟨d, rfl, rfl⟩⟩) <;> simp_all
  · rintro ⟨rfl, rfl⟩
    rfl

theorem colon_notMem_number (n : Nat) : 0x3a ∉ number n := fun inside =>
  absurd (digit_of_mem_number inside).2 (by decide)

section
variable {url : List Byte} {parts : Parts}

theorem splitAuthority_port {emptyAllowed : Bool} {afterColon authorityText rest : List Byte}
    {authority : Authority}
    (split : splitAuthority emptyAllowed afterColon = some (authority, authorityText, rest)) :
    (authority.port.getD []).all isASCIIDigit = true := by
  unfold splitAuthority at split
  split_ifs at split with slashes
  · cases parsed : parseAuthority (afterColon.drop 2) with
    | none =>
      rw [parsed] at split
      cases split
    | some found =>
      have clean := (parseAuthority_clean parsed).1
      rw [parsed] at split
      dsimp only at split
      split_ifs at split
      · cases split
        rfl
      · cases split
        exact clean.port
  · cases split
    rfl

/-- A port is there with its digits, or neither is. -/
theorem assemble_portDigits (notFile : parts.isFile = false) :
    (KURL.assemble url parts).hasPort = false ∧ (KURL.assemble url parts).portDigits = [] ∨
      (KURL.assemble url parts).hasPort = true ∧
        (KURL.assemble url parts).portDigits = widen (parts.authority.port.getD []) ∧
        (KURL.assemble url parts).port = portNumber (parts.authority.port.getD []) := by
  have hostEnd : (KURL.assemble url parts).hostEnd = parts.hostEnd.length := rfl
  have portEnd : (KURL.assemble url parts).portEnd = parts.portEnd.length := rfl
  have front : parts.portEnd <+: parts.fragmentEnd url := portEnd_leading
  have port := @assemble_port url parts notFile
  rw [KURL.hasPort, KURL.portDigits, hostEnd, portEnd, port]
  have without (same : parts.portEnd = parts.hostEnd) : decide (parts.hostEnd.length < parts.portEnd.length) = false ∧
      (KURL.assemble url parts).substring (parts.hostEnd.length + 1)
        (parts.portEnd.length - parts.hostEnd.length - 1) = [] := by
    rw [same, Nat.sub_self]
    exact ⟨decide_eq_false (Nat.lt_irrefl _), List.take_zero ..⟩
  cases shape : parts.authority.port with
  | none => exact Or.inl (without (by simp [Parts.portEnd, shape]))
  | some digits =>
    by_cases has : parts.hasAuthority = true
    · have longer : parts.portEnd = (parts.hostEnd ++ [0x3a]) ++ digits := by
        simp [Parts.portEnd, shape, has]
      have length : parts.portEnd.length = parts.hostEnd.length + 1 + digits.length := by
        rw [longer, List.length_append, List.length_append, List.length_singleton]
      have text : (KURL.assemble url parts).substring (parts.hostEnd.length + 1) digits.length =
          widen digits := by
        rw [longer] at front
        have middle : (KURL.assemble url parts).substring _ _ = _ := substring_eq rfl front
        rwa [List.length_append, List.length_singleton] at middle
      have rest : parts.hostEnd.length + 1 + digits.length - parts.hostEnd.length - 1 =
          digits.length := by omega
      rw [length, rest, text]
      exact Or.inr ⟨decide_eq_true (by omega), rfl, rfl⟩
    · exact Or.inl (without (by simp [Parts.portEnd, shape, has]))

end

end WkcBrowser.Url

namespace WkcBrowser.Network

open Wtf Url ResourceHandleManagerSSL

/-- The number that digits stand for. -/
def decimal (digits : Text) : Nat := digits.foldl (fun value c => value * 10 + (c.toNat - 0x30)) 0

/-- Without digits the port is the one of `https`. -/
def namedPort (digits : Text) : Nat := if digits = [] then 443 else decimal digits

/-- The parts of a URL that `SSLhostAndPort` reads. -/
def serverURL (characters : Characters) (url : KURL) : ServerURL where
  protocol := url.protocol
  host := url.host characters
  port := if url.hasPort then some url.port else none

section
variable (characters : Characters)

/-- The text is the host in any case, and behind it there may be a colon and a port. -/
def Names (call host : Text) (port : Nat) : Prop :=
  ∃ name digits, (call = name ∧ digits = [] ∨ call = name ++ 0x3a :: digits) ∧
    lower characters name = lower characters host ∧ (∀ c ∈ digits, 0x30 ≤ c ∧ c ≤ 0x39) ∧
    namedPort digits = port

/-- The host is named without a port and has no colon in it, or with the digits of the port. -/
def NamesPlainly (call host : Text) (port : Nat) : Prop :=
  0x3a ∉ call ∧ lower characters call = lower characters host ∧ port = 443 ∨
    lower characters call = lower characters host ++ 0x3a :: number port

/-- The port that `SSLhostAndPort` writes. -/
def ServerURL.writtenPort (kurl : ServerURL) : Nat := kurl.port.getD 443

end

theorem portText_eq (n : Nat) : portText n = number n := by
  have digits : (toString n).toList = Nat.toDigits 10 n := Nat.toList_repr
  unfold portText text widen ascii number
  rw [digits, List.map_map]
  refine List.map_congr_left fun c member => ?_
  obtain ⟨-, high⟩ := digit_of_mem_toDigits member
  rw [← UInt16.toNat_inj]
  simp only [Function.comp_apply, UInt8.toNat_toUInt16, UInt8.toNat_ofNat', UInt16.toNat_ofNat']
  omega

theorem number_inj {m n : Nat} (same : number m = number n) : m = n := by
  have values := congrArg decimal same
  unfold decimal at values
  rwa [value_number, value_number] at values

section
variable {platform : Platform} {characters : Characters} (same : platform.lower = lower characters)
  (lowers : characters.Lowers)
include same lowers

theorem lower_SSLhostAndPort (kurl : ServerURL) :
    lower characters (SSLhostAndPort platform kurl) =
      lower characters kurl.host ++ 0x3a :: number kurl.writtenPort := by
  have isSign (n : Nat) : ∀ c ∈ 0x3a :: number n, 0x30 ≤ c ∧ c ≤ 0x3a := by
    refine List.forall_mem_cons.mpr ⟨by decide, fun c member => ?_⟩
    obtain ⟨low, high⟩ := digit_of_mem_number member
    exact ⟨low, UInt16.le_trans high (by decide)⟩
  have kept (n : Nat) : lower characters (0x3a :: number n) = 0x3a :: number n :=
    (lowers.lower_eq_signs_iff (isSign n)).mpr rfl
  unfold SSLhostAndPort ServerURL.writtenPort
  cases kurl.port with
  | none =>
    have signs : text ":443" = 0x3a :: number 443 := by decide
    dsimp only [Option.getD_none]
    rw [signs, lowers.lower_append, kept]
  | some port =>
    have colon : text ":" = [0x3a] := by decide
    dsimp only [Option.getD_some]
    rw [colon, portText_eq, List.append_assoc, List.singleton_append, same, lowers.lower_append, kept,
      lowers.lower_lower]

/-- The host of the URL is in the table when a call names it plainly. -/
theorem tableHost_eq_iff (call : Text) (kurl : ServerURL) :
    tableHost platform call = lower characters (SSLhostAndPort platform kurl) ↔
      NamesPlainly characters call kurl.host kurl.writtenPort := by
  rw [lower_SSLhostAndPort same lowers, tableHost, same, NamesPlainly]
  have colon := lowers.colon_mem_iff call
  by_cases inside : 0x3a ∈ call
  · rw [if_pos inside, or_iff_right (fun both => both.1 inside)]
  · have notWritten : lower characters call ≠
        lower characters kurl.host ++ 0x3a :: number kurl.writtenPort := by
      intro written
      rw [← colon, written] at inside
      exact inside (List.mem_append_right _ List.mem_cons_self)
    have signs : text ":443" = 0x3a :: number 443 := by decide
    have kept : lower characters (0x3a :: number 443) = 0x3a :: number 443 :=
      (lowers.lower_eq_signs_iff (Lib.forall_mem_of_all (by decide))).mpr rfl
    rw [if_neg inside, or_iff_left notWritten, and_iff_right inside, signs, lowers.lower_append, kept,
      append_colon_inj (colon_notMem_number _) (colon_notMem_number _)]
    have ports : number 443 = number kurl.writtenPort ↔ kurl.writtenPort = 443 :=
      ⟨fun equal => (number_inj equal).symm, fun equal => by rw [equal]⟩
    rw [ports]

omit same in
/-- A host that is named plainly is named. -/
theorem NamesPlainly.names {call host : Text} {port : Nat}
    (plainly : NamesPlainly characters call host port) : Names characters call host port := by
  rcases plainly with ⟨-, name, port⟩ | written
  · exact ⟨call, [], Or.inl ⟨rfl, rfl⟩, name, fun c member => absurd member List.not_mem_nil, port.symm⟩
  · rw [lowers.lower_eq, List.map_eq_append_iff] at written
    obtain ⟨name, behind, rfl, nameLower, portLower⟩ := written
    have signs : ∀ c ∈ 0x3a :: number port, 0x30 ≤ c ∧ c ≤ 0x3a := by
      refine List.forall_mem_cons.mpr ⟨by decide, fun c member => ?_⟩
      obtain ⟨low, high⟩ := digit_of_mem_number member
      exact ⟨low, UInt16.le_trans high (by decide)⟩
    rw [← lowers.lower_eq, lowers.lower_eq_signs_iff signs] at portLower
    subst portLower
    rw [← lowers.lower_eq] at nameLower
    refine ⟨name, number port, Or.inr rfl, nameLower, fun c member => digit_of_mem_number member, ?_⟩
    rw [namedPort, if_neg (number_ne_nil port)]
    exact value_number port

end

/-- The port of the URL is missing with its colon, or it is a number of 16 bits. -/
def PortRead (url : KURL) : Prop :=
  url.hasPort = false ∨ url.portDigits ≠ [] ∧ decimal url.portDigits ≤ 0xffff

section
variable {characters : Characters} {url : List Byte}

/-- A URL of `https` is put together from its parts. -/
theorem parse_https (valid : (KURL.parse url).isValid = true)
    (https : lower characters (KURL.parse url).protocol = literal "https") :
    ∃ parts, splitURL url = some parts ∧ KURL.parse url = KURL.assemble url parts ∧
      parts.isFile = false := by
  rw [KURL.parse] at valid https ⊢
  cases split : splitURL url with
  | none =>
    rw [split] at valid
    cases valid
  | some parts =>
    rw [split] at https
    refine ⟨parts, rfl, rfl, ?_⟩
    have length := congrArg List.length https
    have five : (literal "https").length = 5 := by decide
    rw [length_lower, five] at length
    change (KURL.assemble url parts).protocol.length = 5 at length
    rw [assemble_protocol, widen_length] at length
    obtain ⟨-, -, -, -, -, -, -, -, isFile, -⟩ := splitURL_parts split
    rw [isFile, length]
    rfl

/-- Digits behind the colon are read as their number, and other numbers as the one for no port. -/
theorem portNumber_digits {digits : List Byte} (isDigit : digits.all isASCIIDigit = true)
    (some_digit : digits ≠ []) (small : decimal (widen digits) ≤ 0xffff) :
    portNumber digits = decimal (widen digits) := by
  have widened : ∀ c ∈ widen digits, 0x30 ≤ c ∧ c ≤ 0x39 := by
    intro c member
    obtain ⟨b, inDigits, rfl⟩ := List.mem_map.mp member
    have digit := List.all_eq_true.mp isDigit b inDigits
    simp only [isASCIIDigit, Bool.and_eq_true, decide_eq_true_eq, UInt8.le_iff_toNat_le] at digit
    simp only [UInt16.le_iff_toNat_le, UInt8.toNat_toUInt16]
    exact digit
  have some_char : widen digits ≠ [] := by
    rw [widen, ne_eq, List.map_eq_nil_iff]
    exact some_digit
  have fits : decimal (widen digits) ≤ 0xffffffff := by omega
  have read : toIntegralType 0xffffffff false (widen digits) = some (decimal (widen digits) : Int) :=
    (toIntegralType_digits some_char widened).trans (if_neg (Nat.not_lt.mpr fits))
  rw [portNumber, if_neg some_digit, read]
  change (if (decimal (widen digits) : Int) > maximumValidPortNumber then invalidPortNumber
    else (decimal (widen digits) : Int).toNat) = decimal (widen digits)
  rw [maximumValidPortNumber, invalidPortNumber, Int.toNat_natCast]
  split <;> omega

/-- A port that can be read is written by `SSLhostAndPort`. -/
theorem writtenPort_read (valid : (KURL.parse url).isValid = true)
    (https : lower characters (KURL.parse url).protocol = literal "https")
    (read : PortRead (KURL.parse url)) :
    (serverURL characters (KURL.parse url)).writtenPort = namedPort (KURL.parse url).portDigits := by
  obtain ⟨parts, split, whole, notFile⟩ := parse_https valid https
  obtain ⟨_, _, -, -, -, authority, -⟩ := splitURL_parts split
  have isDigit := splitAuthority_port authority
  rw [whole] at read ⊢
  unfold ServerURL.writtenPort serverURL
  dsimp only
  rcases @assemble_portDigits url parts notFile with ⟨without, digits⟩ | ⟨has, digits, port⟩
  · rw [without, digits]
    rfl
  · rw [PortRead, has, digits, or_iff_right (by decide)] at read
    obtain ⟨some_char, small⟩ := read
    have some_digit : parts.authority.port.getD [] ≠ [] := by
      intro none
      rw [none] at some_char
      exact some_char rfl
    rw [has, digits, port, namedPort, if_neg some_char, if_pos rfl, Option.getD_some,
      portNumber_digits isDigit some_digit small]

theorem writtenPort_not_read {url : KURL} (notRead : ¬PortRead url) :
    (serverURL characters url).writtenPort = url.port := by
  unfold ServerURL.writtenPort serverURL
  dsimp only
  rw [PortRead, not_or, Bool.not_eq_false] at notRead
  rw [notRead.1, if_pos rfl, Option.getD_some]

end

/-- What the table holds after calls of `setAllowServerHost`. -/
theorem allowServerHost_foldl (platform : Platform) (m : ResourceHandleManagerSSL) (calls : List Text)
    (host : Text) :
    host ∈ (calls.foldl (setAllowServerHost platform) m).allowServerHost ↔
      (∃ call ∈ calls, tableHost platform call = host) ∨ host ∈ m.allowServerHost := by
  induction calls generalizing m with
  | nil => simp
  | cons call calls ih =>
    rw [List.foldl_cons, ih, setAllowServerHost, List.mem_cons, List.exists_mem_cons_iff, @eq_comm _ host]
    simp only [or_assoc, or_left_comm]

/-- The options of a handle after the calls: neither the peer nor its host is verified. -/
def Unverified (platform : Platform) (m : ResourceHandleManagerSSL) (calls : List Text)
    (kurl : ServerURL) (handle : TLSOptions) : Prop :=
  let handle := (calls.foldl (setAllowServerHost platform) m).initializeHandleSSL platform kurl handle
  handle.verifyPeer = 0 ∧ handle.verifyHost = 0

/-- When a port is read, a call that names the URL is of no use unless one names it plainly. -/
def Agree (characters : Characters) (calls : List Text) (url : KURL) : Prop :=
  let host := url.host characters
  let named := ∃ call ∈ calls, Names characters call host (namedPort url.portDigits)
  (PortRead url → named → ∃ call ∈ calls, NamesPlainly characters call host (namedPort url.portDigits)) ∧
    (¬PortRead url → (named ↔ ∃ call ∈ calls, NamesPlainly characters call host url.port))

section
variable {platform : Platform} {characters : Characters} (same : platform.lower = lower characters)
  (lowers : characters.Lowers)
include same lowers

theorem unverified_iff_plainly {m : ResourceHandleManagerSSL} (empty : m.allowServerHost = [])
    (calls : List Text) (kurl : ServerURL) (handle : TLSOptions) :
    Unverified platform m calls kurl handle ↔
      ∃ call ∈ calls, NamesPlainly characters call kurl.host kurl.writtenPort := by
  have listed := allowServerHost_foldl platform m calls (lower characters (SSLhostAndPort platform kurl))
  rw [empty, or_iff_left List.not_mem_nil] at listed
  simp only [tableHost_eq_iff same lowers] at listed
  rw [← listed]
  unfold Unverified initializeHandleSSL setVerification allowsServerHost
  dsimp only
  rw [same]
  by_cases inside : lower characters (SSLhostAndPort platform kurl) ∈
      (calls.foldl (setAllowServerHost platform) m).allowServerHost
  · rw [if_pos (decide_eq_true inside)]
    exact iff_of_true ⟨rfl, rfl⟩ inside
  · rw [if_neg (by rw [decide_eq_false inside]; exact Bool.false_ne_true)]
    exact iff_of_false (fun both => Nat.one_ne_zero both.1) inside

end

/-- The certificates of exactly the hosts that were named are not verified, if the calls agree with
the way in which the URL is written. -/
theorem unverified_iff_named_iff (platform : Platform) (characters : Characters)
    (same : platform.lower = lower characters) (lowers : characters.Lowers)
    (m : ResourceHandleManagerSSL) (empty : m.allowServerHost = []) (calls : List Text) (url : List Byte)
    (valid : (KURL.parse url).isValid = true)
    (https : lower characters (KURL.parse url).protocol = literal "https") (handle : TLSOptions) :
    (Unverified platform m calls (serverURL characters (KURL.parse url)) handle ↔
      ∃ call ∈ calls, Names characters call ((KURL.parse url).host characters)
        (namedPort (KURL.parse url).portDigits)) ↔
    Agree characters calls (KURL.parse url) := by
  have plainly := unverified_iff_plainly same lowers empty calls (serverURL characters (KURL.parse url)) handle
  have host : (serverURL characters (KURL.parse url)).host = (KURL.parse url).host characters := rfl
  rw [host] at plainly
  rw [plainly, Agree]
  by_cases read : PortRead (KURL.parse url)
  · rw [writtenPort_read valid https read]
    constructor
    · exact fun agree => ⟨fun _ => agree.mpr, fun notRead => absurd read notRead⟩
    · rintro ⟨agree, -⟩
      refine ⟨?_, agree read⟩
      rintro ⟨call, listed, isPlain⟩
      exact ⟨call, listed, isPlain.names lowers⟩
  · rw [writtenPort_not_read read]
    constructor
    · exact fun agree => ⟨fun isRead => absurd isRead read, fun _ => agree.symm⟩
    · exact fun agree => (agree.2 read).symm

theorem utf8_lowers : utf8.Lowers where
  ascii _ _ := rfl
  again c := by
    change toASCIILower (toASCIILower c) = toASCIILower c
    unfold toASCIILower
    simp only [UInt16.le_iff_toNat_le]
    split_ifs with capital again
    · rw [UInt16.toNat_add] at again
      have high := capital.2
      simp at again high capital
      omega
    · rfl
    · rfl
  sign c low high := by
    change toASCIILower c = c
    change 0x30 ≤ toASCIILower c at low
    change toASCIILower c ≤ 0x3a at high
    unfold toASCIILower at *
    split_ifs at * with capital
    · rw [UInt16.le_iff_toNat_le, UInt16.toNat_add] at high
      simp only [UInt16.le_iff_toNat_le] at capital
      simp at high capital
      omega
    · rfl

theorem examplePlatform_lower : examplePlatform.lower = lower utf8 := by
  funext text
  unfold lower
  split_ifs <;> rfl

theorem unverified_iff_named_iff_host :
    (Unverified examplePlatform {} [text "A"]
        (serverURL utf8 (KURL.parse (ascii "https://a/"))) {} ↔
      ∃ call ∈ [text "A"], Names utf8 call
        ((KURL.parse (ascii "https://a/")).host utf8)
        (namedPort (KURL.parse (ascii "https://a/")).portDigits)) ↔
    Agree utf8 [text "A"] (KURL.parse (ascii "https://a/")) :=
  unverified_iff_named_iff examplePlatform utf8 examplePlatform_lower utf8_lowers {}
    rfl [text "A"] (ascii "https://a/") (by decide) (by decide) {}

/-- An address in brackets has colons of its own. -/
theorem not_named_unverified :
    ¬∀ (platform : Platform) (characters : Characters), platform.lower = lower characters →
      characters.Lowers → ∀ m : ResourceHandleManagerSSL, m.allowServerHost = [] →
        ∀ (calls : List Text) (url : List Byte), (KURL.parse url).isValid = true →
          lower characters (KURL.parse url).protocol = literal "https" → ∀ handle : TLSOptions,
            (Unverified platform m calls (serverURL characters (KURL.parse url)) handle ↔
              ∃ call ∈ calls, Names characters call ((KURL.parse url).host characters)
                (namedPort (KURL.parse url).portDigits)) := by
  intro all
  have host : (KURL.parse (ascii "https://[::1]/")).host utf8 = text "[::1]" := by decide +kernel
  have agree := all examplePlatform utf8 examplePlatform_lower utf8_lowers {} rfl
    [text "[::1]"] (ascii "https://[::1]/") (by decide) (by decide) {}
  rw [host] at agree
  have named := agree.mpr ⟨text "[::1]", List.mem_singleton_self _, text "[::1]", [], Or.inl ⟨rfl, rfl⟩,
    rfl, fun c member => absurd member List.not_mem_nil, by decide⟩
  rw [unverified_iff_plainly examplePlatform_lower utf8_lowers rfl] at named
  obtain ⟨call, listed, plainly⟩ := named
  rw [List.mem_singleton.mp listed] at plainly
  rcases plainly with ⟨noColon, -⟩ | written
  · exact noColon (by decide)
  · have lengths := congrArg List.length written
    change (lower utf8 (text "[::1]")).length = (lower utf8
      ((KURL.parse (ascii "https://[::1]/")).host utf8) ++ 0x3a :: _).length at lengths
    rw [host, List.length_append, List.length_cons] at lengths
    omega

end WkcBrowser.Network
