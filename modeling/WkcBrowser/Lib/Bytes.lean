import Mathlib.Data.List.Basic
import Mathlib.Tactic.Ring

/-! Facts on all bytes. -/

namespace WkcBrowser.Lib

/-- A fact about all bytes is checked for each, by its upper and its lower half. -/
theorem forall_byte (holds : UInt8 → Bool)
    (all : ((List.range 16).all fun upper => (List.range 16).all fun lower =>
      holds (.ofNat (16 * upper + lower))) = true) (c : UInt8) : holds c = true := by
  have upper : c.toNat / 16 ∈ List.range 16 :=
    List.mem_range.mpr (Nat.div_lt_of_lt_mul (c.toNat_lt : c.toNat < 16 * 16))
  have lower : c.toNat % 16 ∈ List.range 16 := List.mem_range.mpr (Nat.mod_lt _ (by decide))
  have there := List.all_eq_true.mp (List.all_eq_true.mp all _ upper) _ lower
  rwa [Nat.div_add_mod, UInt8.ofNat_toNat] at there

/-- A fact about the elements of a list is checked for each. -/
theorem forall_mem_of_all {α : Type} {P : α → Prop} [DecidablePred P] {xs : List α}
    (all : xs.all (fun c => decide (P c)) = true) : ∀ c ∈ xs, P c := fun c member =>
  of_decide_eq_true (List.all_eq_true.mp all c member)

end WkcBrowser.Lib

/-! Numbers as bytes, the highest byte first. -/

namespace WkcBrowser.Lib.ByteOrder

/-- The lowest bytes of a number. -/
def bigEndian : Nat → Nat → List UInt8
  | 0, _ => []
  | width + 1, n => UInt8.ofNat (n >>> (8 * width)) :: bigEndian width n

def ofBigEndian (bytes : List UInt8) : Nat :=
  bytes.foldl (fun n byte => 256 * n + byte.toNat) 0

@[simp] theorem length_bigEndian (width n : Nat) : (bigEndian width n).length = width := by
  induction width with
  | zero => rfl
  | succ width ih => rw [bigEndian, List.length_cons, ih]

theorem toNat_ofNat_shiftRight (width n : Nat) :
    (UInt8.ofNat (n >>> (8 * width))).toNat = n / 256 ^ width % 256 := by
  rw [Nat.shiftRight_eq_div_pow, Nat.pow_mul]
  simp

theorem foldl_bigEndian (width n start : Nat) :
    (bigEndian width n).foldl (fun n byte => 256 * n + byte.toNat) start =
      start * 256 ^ width + n % 256 ^ width := by
  induction width generalizing start with
  | zero => simp [bigEndian, Nat.mod_one]
  | succ width ih =>
    rw [bigEndian, List.foldl_cons, ih, toNat_ofNat_shiftRight, Nat.pow_succ, Nat.mod_mul]
    ring

theorem ofBigEndian_bigEndian {width n : Nat} (short : n < 256 ^ width) :
    ofBigEndian (bigEndian width n) = n := by
  rw [ofBigEndian, foldl_bigEndian, Nat.zero_mul, Nat.zero_add, Nat.mod_eq_of_lt short]

end WkcBrowser.Lib.ByteOrder
