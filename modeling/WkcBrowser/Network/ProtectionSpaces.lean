import WkcBrowser.Lib.Bytes
import WkcBrowser.Network.AuthenticationChallenge

/-! Challenges of the Basic and Digest schemes, and when the protection space that is made of one has its
realm and is that of the request. -/

namespace WkcBrowser.Network

open Wtf Splitting

def isLws (c : UChar) : Bool := c = 0x20 || c = 0x09 || c = 0x0D || c = 0x0A

def isTokenChar (c : UChar) : Bool :=
  0x21 ≤ c && c ≤ 0x7E && c ∉ text "()<>@,;:/[]?=\x7b\x7d" && c ≠ quote && c ≠ 0x5C

/-- A quote is part of quoted text after a backslash only. -/
def isQuotedText : Text → Bool
  | [] => true
  | [c] => c ≠ quote && c ≠ 0x5C
  | c :: c' :: rest => if c = 0x5C then isQuotedText rest else c ≠ quote && isQuotedText (c' :: rest)

/-- Linear white space, or none. -/
structure Lws where
  text : Text
  white : ∀ c ∈ text, isLws c = true

structure Token where
  text : Text
  nonempty : text ≠ []
  chars : ∀ c ∈ text, isTokenChar c = true

structure QuotedText where
  text : Text
  quoted : isQuotedText text = true

inductive ParameterValue where
  | token (chars : Token)
  | quoted (content : QuotedText)

def ParameterValue.text : ParameterValue → Text
  | token chars => chars.text
  | quoted content => quote :: content.text ++ [quote]

structure Parameter where
  name : Token
  beforeEquals : Lws
  afterEquals : Lws
  value : ParameterValue

def Parameter.text (parameter : Parameter) : Text :=
  parameter.name.text ++ parameter.beforeEquals.text ++ equals ::
    (parameter.afterEquals.text ++ parameter.value.text)

/-- What stands between two parameters; elements of the list may be missing. -/
structure Separator where
  text : Text
  chars : ∀ c ∈ text, isLws c = true ∨ c = comma
  separates : comma ∈ text

def isRealm (name : Text) : Prop := name.map toASCIILower = text "realm"

/-- A challenge with the one parameter that is its realm, and the parameters before and after it. -/
structure Challenge where
  digest : Bool
  scheme : Text
  scheme_name : scheme.map toASCIILower = text (if digest then "digest" else "basic")
  leading : Lws
  space : Lws
  space_nonempty : space.text ≠ []
  before : List (Parameter × Separator)
  realmName : Token
  realmName_isRealm : isRealm realmName.text
  beforeEquals : Lws
  afterEquals : Lws
  realm : QuotedText
  after : List (Separator × Parameter)
  realm_once : (∀ p ∈ before, ¬isRealm p.1.name.text) ∧ ∀ p ∈ after, ¬isRealm p.2.name.text
  trailing : Lws

namespace Challenge

variable (challenge : Challenge)

def realmParameter : Parameter :=
  ⟨challenge.realmName, challenge.beforeEquals, challenge.afterEquals, .quoted challenge.realm⟩

def beforeText : Text := challenge.before.flatMap fun p => p.1.text ++ p.2.text

def afterText : Text := challenge.after.flatMap fun p => p.1.text ++ p.2.text

def body : Text := challenge.beforeText ++ challenge.realmParameter.text ++ challenge.afterText

/-- The value of the header field. -/
def header : Text :=
  challenge.leading.text ++ (challenge.scheme ++ challenge.space.text ++ challenge.body) ++
    challenge.trailing.text

/-- What follows the first comma after the realm. -/
def later : Text := (challenge.afterText.dropWhile (· ≠ comma)).drop 1

end Challenge

section
variable {item front rest value : Text}

theorem isSpaceOrNewline_of_isLws {c : UChar} (white : isLws c = true) : isSpaceOrNewline c = true := by
  simp only [isLws, Bool.or_eq_true, decide_eq_true_eq] at white
  rcases white with ((rfl | rfl) | rfl) | rfl <;> decide

theorem Lws.isSpaceOrNewline (lws : Lws) : ∀ c ∈ lws.text, isSpaceOrNewline c = true :=
  fun c mem => isSpaceOrNewline_of_isLws (lws.white c mem)

theorem isSpaceOrNewline_of_isTokenChar {c : UChar} (plain : isTokenChar c = true) :
    isSpaceOrNewline c = false := by
  have above : 0x21 ≤ c := by
    simp only [isTokenChar, Bool.and_eq_true, decide_eq_true_eq] at plain
    exact plain.1.1.1.1
  rw [Wtf.isSpaceOrNewline, Bool.or_eq_false_iff, decide_eq_false_iff_not, decide_eq_false_iff_not]
  rw [UInt16.le_iff_toNat_le] at above
  constructor
  · rintro rfl
    exact absurd above (by decide)
  · rintro ⟨_, below⟩
    rw [UInt16.le_iff_toNat_le] at below
    exact absurd (above.trans below) (by decide)

/-- The last character is no white space. -/
def EndsPlain (text : Text) : Prop := ∃ c ∈ text.getLast?, Wtf.isSpaceOrNewline c = false

theorem EndsPlain.append {text : Text} (plain : EndsPlain text) (before : Text) :
    EndsPlain (before ++ text) := by
  obtain ⟨c, last, plain⟩ := plain
  exact ⟨c, by rw [List.getLast?_append, Option.mem_def.mp last]; rfl, plain⟩

theorem Token.head_plain (token : Token) (rest : Text) :
    ∃ c ∈ (token.text ++ rest).head?, isTokenChar c = true := by
  obtain ⟨c, chars, shape⟩ := List.exists_cons_of_ne_nil token.nonempty
  exact ⟨c, by rw [shape]; rfl, token.chars c (shape ▸ List.mem_cons_self)⟩

theorem Token.endsPlain (token : Token) : EndsPlain token.text :=
  ⟨_, List.getLast?_eq_some_getLast token.nonempty,
    isSpaceOrNewline_of_isTokenChar (token.chars _ (List.getLast_mem token.nonempty))⟩

theorem Token.tight (token : Token) : Tight token.text := by
  obtain ⟨c, head, plain⟩ := token.head_plain []
  rw [List.append_nil] at head
  exact ⟨⟨c, head, isSpaceOrNewline_of_isTokenChar plain⟩, token.endsPlain⟩

theorem ParameterValue.endsPlain (value : ParameterValue) : EndsPlain value.text := by
  cases value with
  | token chars => exact chars.endsPlain
  | quoted content =>
    exact ⟨quote, List.getLast?_concat .., by decide⟩

theorem Parameter.endsPlain (parameter : Parameter) : EndsPlain parameter.text :=
  @EndsPlain.append (equals :: _) ((parameter.value.endsPlain.append _).append [equals]) _

namespace Challenge

variable {challenge : Challenge}

end Challenge

/-- The port of a URL, or that of its protocol. -/
def effectivePort (url : RequestUrl) : Nat :=
  if url.port ≠ 0 then url.port.toNat else if url.protocol = text "https" then 443 else 80

/-- A protection space is that of a challenge to a request. -/
structure Exact (challenge : Challenge) (url : RequestUrl) (space : ProtectionSpace) : Prop where
  realm : space.realm = challenge.realm.text
  host : space.host = url.host
  port : space.port = effectivePort url

end

end WkcBrowser.Network
