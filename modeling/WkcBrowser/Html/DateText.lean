import Mathlib.Tactic.Positivity
import Mathlib.Tactic.Ring
import WkcBrowser.Html.CalendarDates

/-! What the functions of `ISODateTime` read: which texts stand at a position, and the numbers that their
digits write. -/

namespace WkcBrowser.Html

open Wtf

/-- A text stands at a position of another one. -/
def Here (src : Text) (index : Nat) (text : Text) : Prop := text <+: src.drop index

abbrev Digits := List (Fin 10)

def digitChar (digit : Fin 10) : UChar := UInt16.ofNat (0x30 + digit.val)

def Digits.text (digits : Digits) : Text := digits.map digitChar

def pushDigit (value : Int) (digit : Fin 10) : Int := value * 10 + (digit.val : Int)

def Digits.value (digits : Digits) : Int := digits.foldl pushDigit 0

@[simp] theorem Digits.text_length (digits : Digits) : digits.text.length = digits.length :=
  List.length_map ..

variable {src : Text} {index : Nat}

theorem here_append (first second : Text) :
    Here src index (first ++ second) ↔
      Here src index first ∧ Here src (index + first.length) second := by
  unfold Here
  rw [← List.drop_drop]
  constructor
  · rintro ⟨rest, whole⟩
    rw [List.append_assoc] at whole
    refine ⟨⟨_, whole⟩, rest, ?_⟩
    rw [← whole, List.drop_left]
  · rintro ⟨⟨rest, whole⟩, more, whole'⟩
    rw [← whole, List.drop_left] at whole'
    refine ⟨more, ?_⟩
    rw [List.append_assoc, whole', whole]

theorem here_char (c : UChar) : Here src index [c] ↔ src[index]? = some c := by
  unfold Here
  rw [← List.head?_drop]
  cases src.drop index with
  | nil => simp
  | cons d rest => simp [eq_comm]

theorem charIs_iff (c : Char) : charIs src index c = true ↔ Here src index [UInt16.ofNat c.toNat] := by
  unfold charIs
  rw [here_char, decide_eq_true_iff]

theorem isASCIIDigit_digitChar (digit : Fin 10) : isASCIIDigit (digitChar digit) = true := by
  revert digit
  decide

theorem digitChar_toNat (digit : Fin 10) : (digitChar digit).toNat = 0x30 + digit.val := by
  revert digit
  decide

theorem exists_digitChar {c : UChar} (digit : isASCIIDigit c = true) : ∃ d, c = digitChar d := by
  unfold isASCIIDigit at digit
  obtain ⟨low, high⟩ := of_decide_eq_true digit
  have low' : 48 ≤ c.toNat := low
  have high' : c.toNat ≤ 57 := high
  refine ⟨⟨c.toNat - 48, by omega⟩, UInt16.toNat_inj.mp ?_⟩
  rw [digitChar_toNat]
  dsimp only
  omega

theorem digitChar_injective : Function.Injective digitChar := by
  intro d e same
  have numbers := congrArg UInt16.toNat same
  rw [digitChar_toNat, digitChar_toNat] at numbers
  exact Fin.ext (by omega)

theorem le_foldl_pushDigit (digits : Digits) {value : Int} (nonneg : 0 ≤ value) :
    value ≤ digits.foldl pushDigit value := by
  induction digits generalizing value with
  | nil => exact le_refl value
  | cons digit digits ih =>
    have step : value ≤ pushDigit value digit := by
      unfold pushDigit
      omega
    exact step.trans (ih (nonneg.trans step))

theorem Digits.value_nonneg (digits : Digits) : 0 ≤ digits.value :=
  le_foldl_pushDigit digits (le_refl 0)

theorem foldl_pushDigit_lt (digits : Digits) (value : Int) :
    digits.foldl pushDigit value < (value + 1) * 10 ^ digits.length := by
  induction digits generalizing value with
  | nil => simp
  | cons digit digits ih =>
    have ten := digit.isLt
    have step : pushDigit value digit + 1 ≤ (value + 1) * 10 := by
      unfold pushDigit
      omega
    have power : (0 : Int) < 10 ^ digits.length := by positivity
    calc digits.foldl pushDigit (pushDigit value digit)
        < (pushDigit value digit + 1) * 10 ^ digits.length := ih _
      _ ≤ (value + 1) * 10 * 10 ^ digits.length := Int.mul_le_mul_of_nonneg_right step power.le
      _ = (value + 1) * 10 ^ (digits.length + 1) := by rw [pow_succ]; ring

theorem Digits.value_lt (digits : Digits) : digits.value < 10 ^ digits.length := by
  have bound := foldl_pushDigit_lt digits 0
  rwa [Int.zero_add, Int.one_mul] at bound

/-- The loop reads digits up to the largest `int`. -/
theorem readDigits_iff {text : Text} {value out : Int} (nonneg : 0 ≤ value) (small : value ≤ intMax) :
    readDigits value text = some out ↔ ∃ digits : Digits, text = digits.text ∧
      digits.foldl pushDigit value = out ∧ out ≤ intMax := by
  induction text generalizing value with
  | nil =>
    constructor
    · intro read
      cases read
      exact ⟨[], rfl, rfl, small⟩
    · rintro ⟨digits, whole, rfl, -⟩
      obtain rfl := List.map_eq_nil_iff.mp whole.symm
      rfl
  | cons c rest ih =>
    unfold readDigits
    by_cases digit : isASCIIDigit c = true
    · obtain ⟨d, rfl⟩ := exists_digitChar digit
      have number : (((digitChar d).toNat : Int) - 0x30) = d.val := by
        rw [digitChar_toNat]
        push_cast
        omega
      have ten : d.val < 10 := d.isLt
      dsimp only
      rw [digit, number, if_neg (by decide)]
      have unfolds : ∀ digits : Digits, digitChar d :: rest = digits.text ↔
          ∃ more : Digits, digits = d :: more ∧ rest = more.text := by
        intro digits
        constructor
        · intro whole
          cases digits with
          | nil => cases whole
          | cons e more =>
            obtain ⟨first, rest_⟩ := List.cons.inj whole
            have same : d = e := digitChar_injective first
            exact ⟨more, by rw [same], rest_⟩
        · rintro ⟨more, rfl, rfl⟩
          rfl
      by_cases beyond : value > (intMax - d.val) / 10
      · rw [if_pos beyond]
        refine iff_of_false (by simp) ?_
        rintro ⟨digits, whole, total, bound⟩
        obtain ⟨more, rfl, -⟩ := (unfolds digits).mp whole
        have least : pushDigit value d ≤ out := by
          rw [← total]
          refine le_foldl_pushDigit more ?_
          unfold pushDigit
          omega
        unfold pushDigit at least
        omega
      · rw [if_neg beyond]
        have next : pushDigit value d ≤ intMax := by
          unfold pushDigit
          omega
        have next_nonneg : 0 ≤ pushDigit value d := by
          unfold pushDigit
          omega
        change readDigits (pushDigit value d) rest = some out ↔ _
        rw [ih next_nonneg next]
        constructor
        · rintro ⟨more, whole, total, bound⟩
          exact ⟨d :: more, (unfolds _).mpr ⟨more, rfl, whole⟩, total, bound⟩
        · rintro ⟨digits, whole, total, bound⟩
          obtain ⟨more, rfl, rest_⟩ := (unfolds digits).mp whole
          exact ⟨more, rest_, total, bound⟩
    · rw [Bool.eq_false_of_not_eq_true digit]
      refine iff_of_false (by simp) ?_
      rintro ⟨digits, whole, -⟩
      cases digits with
      | nil => cases whole
      | cons d more =>
        cases whole
        exact digit (isASCIIDigit_digitChar d)

theorem here_text_iff {text : Text} {length : Nat}
    (long : text.length = length) : Here src index text ↔ (src.drop index).take length = text := by
  unfold Here
  rw [List.prefix_iff_eq_take, long, eq_comm]

theorem Here.length_le {text : Text} (here : Here src index text) (nonempty : text ≠ []) :
    index + text.length ≤ src.length := by
  have bound := List.IsPrefix.length_le here
  rw [List.length_drop] at bound
  have pos := List.length_pos_of_ne_nil nonempty
  omega

/-- `toInt` reads so many digits. -/
theorem toInt_iff {length : Nat} {out : Int} :
    toInt src index length = some out ↔ 0 < length ∧ ∃ digits : Digits, digits.length = length ∧
      Here src index digits.text ∧ digits.value = out ∧ out ≤ intMax := by
  unfold toInt
  by_cases bad : index + length > src.length ∨ length = 0
  · rw [if_pos bad]
    refine iff_of_false (by simp) ?_
    rintro ⟨pos, digits, long, here, -⟩
    have nonempty : digits.text ≠ [] := by
      rw [← List.length_pos_iff, Digits.text_length]
      omega
    have bound := here.length_le nonempty
    rw [Digits.text_length] at bound
    omega
  · rw [if_neg bad, readDigits_iff (le_refl 0) (by decide)]
    rw [not_or] at bad
    have fits : index + length ≤ src.length := by omega
    constructor
    · rintro ⟨digits, whole, total, bound⟩
      have long : digits.length = length := by
        rw [← Digits.text_length, ← whole, List.length_take, List.length_drop]
        omega
      exact ⟨Nat.pos_of_ne_zero bad.2, digits, long,
        (here_text_iff (by simpa using long)).mpr whole, total, bound⟩
    · rintro ⟨-, digits, long, here, total, bound⟩
      exact ⟨digits, (here_text_iff (by simpa using long)).mp here, total, bound⟩

/-- Two digits. -/
structure Pair where
  tens : Fin 10
  ones : Fin 10
deriving DecidableEq

namespace Pair

def text (pair : Pair) : Text := [digitChar pair.tens, digitChar pair.ones]

def value (pair : Pair) : Int := (pair.tens.val : Int) * 10 + (pair.ones.val : Int)

theorem value_bounds (pair : Pair) : 0 ≤ pair.value ∧ pair.value ≤ 99 := by
  have tens := pair.tens.isLt
  have ones := pair.ones.isLt
  unfold value
  omega

end Pair

theorem toInt_two_iff {out : Int} :
    toInt src index 2 = some out ↔ ∃ pair : Pair, Here src index pair.text ∧ pair.value = out := by
  rw [toInt_iff]
  constructor
  · rintro ⟨-, digits, long, here, total, -⟩
    obtain ⟨tens, ones, rfl⟩ := List.length_eq_two.mp long
    refine ⟨⟨tens, ones⟩, here, ?_⟩
    rw [← total]
    simp [Pair.value, Digits.value, pushDigit]
  · rintro ⟨pair, here, rfl⟩
    have small := pair.value_bounds.2
    refine ⟨by decide, [pair.tens, pair.ones], rfl, here, ?_, ?_⟩
    · simp [Pair.value, Digits.value, pushDigit]
    · unfold intMax
      omega

theorem twoDigits_iff {low high out : Int} :
    twoDigits src index low high = some out ↔
      ∃ pair : Pair, Here src index pair.text ∧ pair.value = out ∧ low ≤ out ∧ out ≤ high := by
  unfold twoDigits
  cases read : toInt src index 2 with
  | none =>
    refine iff_of_false (by simp) ?_
    rintro ⟨pair, here, -⟩
    rw [toInt_two_iff.mpr ⟨pair, here, rfl⟩] at read
    cases read
  | some value =>
    obtain ⟨pair, here, total⟩ := toInt_two_iff.mp read
    dsimp only
    by_cases bad : value < low ∨ value > high
    · rw [if_pos bad]
      refine iff_of_false (by simp) ?_
      rintro ⟨pair', here', rfl, above, below⟩
      rw [toInt_two_iff.mpr ⟨pair', here', rfl⟩] at read
      obtain rfl := Option.some.inj read
      omega
    · rw [if_neg bad]
      constructor
      · intro same
        obtain rfl := Option.some.inj same
        exact ⟨pair, here, total, by omega, by omega⟩
      · rintro ⟨pair', here', rfl, -⟩
        rw [toInt_two_iff.mpr ⟨pair', here', rfl⟩] at read
        exact read.symm

/-- No digit stands at a position. -/
def NoDigit (src : Text) (index : Nat) : Prop := ∀ c, src[index]? = some c → isASCIIDigit c = false

theorem exists_digits {text : Text} (all : ∀ c ∈ text, isASCIIDigit c = true) :
    ∃ digits : Digits, text = digits.text := by
  induction text with
  | nil => exact ⟨[], rfl⟩
  | cons c rest ih =>
    obtain ⟨digits, rfl⟩ := ih fun d member => all d (List.mem_cons_of_mem c member)
    obtain ⟨d, rfl⟩ := exists_digitChar (all c List.mem_cons_self)
    exact ⟨d :: digits, rfl⟩

/-- All digits from a position on are counted. -/
theorem countDigits_here (src : Text) (start : Nat) :
    ∃ digits : Digits, digits.length = countDigits src start ∧ Here src start digits.text ∧
      NoDigit src (start + digits.length) := by
  obtain ⟨digits, whole⟩ := @exists_digits ((src.drop start).takeWhile isASCIIDigit)
    fun c member => List.mem_takeWhile_imp member
  have long : digits.length = countDigits src start := by
    unfold countDigits
    rw [whole, Digits.text_length]
  refine ⟨digits, long, ?_, fun c found => ?_⟩
  · unfold Here
    rw [← whole]
    exact List.takeWhile_prefix _
  · have parts := List.takeWhile_append_dropWhile (p := isASCIIDigit) (l := src.drop start)
    rw [← List.getElem?_drop, ← parts, whole,
      List.getElem?_append_right (by simp), Digits.text_length, Nat.sub_self,
      ← List.head?_eq_getElem?] at found
    have stops := List.head?_dropWhile_not isASCIIDigit (src.drop start)
    rw [found] at stops
    simpa using stops

theorem countDigits_eq {digits : Digits} (here : Here src index digits.text)
    (stop : NoDigit src (index + digits.length)) : countDigits src index = digits.length := by
  obtain ⟨rest, whole⟩ := here
  have next : ∀ c, rest.head? = some c → isASCIIDigit c = false := by
    intro c first
    refine stop c ?_
    rw [← List.getElem?_drop, ← whole, List.getElem?_append_right (by simp), Digits.text_length,
      Nat.sub_self, ← List.head?_eq_getElem?]
    exact first
  have all : ∀ c ∈ digits.text, isASCIIDigit c = true := by
    intro c member
    obtain ⟨d, -, rfl⟩ := List.mem_map.mp member
    exact isASCIIDigit_digitChar d
  have rest_ : rest.takeWhile isASCIIDigit = [] := by
    cases rest with
    | nil => rfl
    | cons c rest => rw [List.takeWhile_cons, if_neg (by simp [next c rfl])]
  unfold countDigits
  rw [← whole, List.takeWhile_append_of_pos all, rest_, List.append_nil, Digits.text_length]

/-- A year has four digits or more, and no year is before the start of the calendar. -/
theorem parseYear_iff {d d' : ISODateTime} {start end_ : Nat} :
    d.parseYear src start = some (d', end_) ↔ ∃ digits : Digits, 4 ≤ digits.length ∧
      Here src start digits.text ∧ NoDigit src (start + digits.length) ∧
      gregorianStartYear ≤ digits.value ∧ digits.value ≤ intMax ∧
      d' = { d with year := digits.value } ∧ end_ = start + digits.length := by
  unfold ISODateTime.parseYear
  dsimp only
  constructor
  · intro parsed
    by_cases short : countDigits src start < 4
    · rw [if_pos short] at parsed
      cases parsed
    · rw [if_neg short] at parsed
      obtain ⟨digits, long, here, stop⟩ := countDigits_here src start
      cases read : toInt src start (countDigits src start) with
      | none =>
        rw [read] at parsed
        cases parsed
      | some year =>
        rw [read] at parsed
        obtain ⟨-, digits', long', here', total, bound⟩ := toInt_iff.mp read
        dsimp only at parsed
        by_cases early : year < gregorianStartYear
        · rw [if_pos early] at parsed
          cases parsed
        · rw [if_neg early] at parsed
          cases parsed
          refine ⟨digits', by omega, here', ?_, ?_, ?_, ?_, ?_⟩
          · rw [long', ← long]
            exact stop
          · rw [total]
            exact Int.not_lt.mp early
          · rw [total]
            exact bound
          · rw [total]
          · rw [long']
  · rintro ⟨digits, four, here, stop, late, bound, rfl, rfl⟩
    have count := countDigits_eq here stop
    have read : toInt src start digits.length = some digits.value :=
      toInt_iff.mpr ⟨by omega, digits, rfl, here, rfl, bound⟩
    rw [count, if_neg (by omega), read]
    dsimp only
    rw [if_neg (Int.not_lt.mpr late)]

end WkcBrowser.Html
