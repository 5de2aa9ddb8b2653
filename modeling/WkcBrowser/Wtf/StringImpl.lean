import Mathlib.Algebra.Group.Nat.Defs
import Mathlib.Data.List.DropRight

/-! Bytes and UTF-16 code units as the engine stores them. A `char*` with its length is a list of
bytes and the characters of a `WebCore::String` are a list of `UChar`. Where the engine tells a
null string from an empty one the model says so with an `Option`. -/

namespace WkcBrowser.Wtf

abbrev Byte := UInt8
abbrev UChar := UInt16
abbrev Text := List UChar

instance lawfulBEqText : LawfulBEq Text := inferInstance

/-- An `AtomicString`, which may be null. -/
abbrev AtomicString := Option Text

def AtomicString.isEmpty (string : AtomicString) : Bool := (string.getD []).isEmpty

/-- The bytes of a string literal of the source, which is ASCII throughout. -/
def ascii (literal : String) : List Byte :=
  literal.toList.map fun c => UInt8.ofNat c.toNat

/-- `Vector<char>::append(const UChar*, size_t)` keeps the low byte of each code unit. -/
def narrow (text : Text) : List Byte :=
  text.map UInt16.toUInt8

/-- `String(const char*, unsigned)` widens each byte. -/
def widen (bytes : List Byte) : Text :=
  bytes.map UInt8.toUInt16

@[simp] theorem narrow_length (text : Text) : (narrow text).length = text.length :=
  List.length_map ..

@[simp] theorem widen_length (bytes : List Byte) : (widen bytes).length = bytes.length :=
  List.length_map ..

end WkcBrowser.Wtf

/-! The searches and comparisons of `StringImpl` that the engine's text formats are read with. The
patterns are ASCII, so case folding is `toASCIILower` on every unit that can match one. -/

namespace WkcBrowser.Wtf

def toASCIILower (c : UChar) : UChar :=
  if 0x41 ≤ c ∧ c ≤ 0x5a then c + 0x20 else c

def equalIgnoringCase (a b : Text) : Bool :=
  a.map toASCIILower = b.map toASCIILower

/-- `StringImpl::find` from index 0, with regard to case. -/
def find (pattern : Text) : Text → Option Nat
  | [] => if pattern.isPrefixOf [] then some 0 else none
  | c :: rest => if pattern.isPrefixOf (c :: rest) then some 0 else (find pattern rest).map (· + 1)

/-- `StringImpl::find` from index 0, without regard to case. -/
def findIgnoringCase (pattern text : Text) : Option Nat :=
  find (pattern.map toASCIILower) (text.map toASCIILower)

/-- On the units up to U+00FF, which is what a text read from bytes has. -/
def isSpaceOrNewline (c : UChar) : Bool :=
  decide (c = 0x20) || decide (9 ≤ c ∧ c ≤ 13)

def stripWhiteSpace (text : Text) : Text :=
  (text.dropWhile isSpaceOrNewline).rdropWhile isSpaceOrNewline

/-- Begins and ends with a character that is no white space. -/
def Tight (text : Text) : Prop :=
  (∃ c ∈ text.head?, isSpaceOrNewline c = false) ∧ ∃ c ∈ text.getLast?, isSpaceOrNewline c = false

theorem rdropWhile_append {α : Type} {p : α → Bool} {last : α} (plain : p last = false)
    (init after : List α) : (init ++ [last] ++ after).rdropWhile p = init ++ [last] ++ after.rdropWhile p := by
  induction after using List.reverseRecOn with
  | nil =>
    rw [List.append_nil, List.rdropWhile_concat_neg _ _ _ (Bool.eq_false_iff.mp plain),
      List.rdropWhile_nil, List.append_nil]
  | append_singleton after c ih =>
    rw [← List.append_assoc, List.rdropWhile_concat, List.rdropWhile_concat]
    split
    · exact ih
    · exact List.append_assoc ..

theorem find_eq_zero (pattern text : Text) : find pattern text = some 0 ↔ pattern <+: text := by
  cases text with
  | nil =>
    rw [find, ← List.isPrefixOf_iff_prefix]
    split <;> simp_all
  | cons c rest =>
    rw [find, ← List.isPrefixOf_iff_prefix]
    split <;> simp_all

/-- A search succeeds exactly when the pattern occurs. -/
theorem find_isSome (pattern text : Text) : (find pattern text).isSome = true ↔ pattern <:+: text := by
  induction text with
  | nil =>
    rw [find]
    cases pattern with
    | nil => simp
    | cons c rest => simp [List.isPrefixOf]
  | cons c rest ih =>
    rw [find, List.infix_cons_iff, ← List.isPrefixOf_iff_prefix, ← ih]
    split <;> simp_all

theorem findIgnoringCase_isSome (pattern text : Text) :
    (findIgnoringCase pattern text).isSome = true ↔
      pattern.map toASCIILower <:+: text.map toASCIILower :=
  find_isSome _ _

end WkcBrowser.Wtf
