import Mathlib.Algebra.Order.Field.Rat
import Mathlib.Tactic.Ring

/-!
# Binary interchange formats

A sign, `e` bits of biased exponent and `f` bits of fraction, packed in a word.

* `pack` — the word of its three fields.
* `Finite`, `value` — what a word stands for.
-/

namespace SloPPC603
namespace Words
namespace Binary

variable {e f : ℕ}

/-- The word of a sign, a biased exponent and a fraction. -/
def pack (s : Bool) (E : BitVec e) (F : BitVec f) : BitVec (1 + e + f) := BitVec.ofBool s ++ E ++ F

/-- The sign of a word. -/
def sign (e f : ℕ) {w : ℕ} (x : BitVec w) : Bool := x.getLsbD (e + f)

/-- The biased exponent. -/
def biased (e f : ℕ) {w : ℕ} (x : BitVec w) : BitVec e := x.extractLsb' f e

/-- The fraction. -/
def fraction (f : ℕ) {w : ℕ} (x : BitVec w) : BitVec f := x.extractLsb' 0 f

section Pack

variable (s : Bool) (E : BitVec e) (F : BitVec f)

@[simp] theorem sign_pack : sign e f (pack s E F) = s := by
  rw [sign, pack, BitVec.getLsbD_append, if_neg (by omega), Nat.add_sub_cancel,
    BitVec.getLsbD_append, if_neg (Nat.lt_irrefl e), Nat.sub_self]
  cases s <;> rfl

@[simp] theorem biased_pack : biased e f (pack s E F) = E := by
  refine BitVec.eq_of_getLsbD_eq fun j hj => ?_
  rw [biased, pack, BitVec.getLsbD_extractLsb', decide_eq_true hj, Bool.true_and,
    BitVec.getLsbD_append, if_neg (by omega), Nat.add_sub_cancel_left, BitVec.getLsbD_append,
    if_pos hj]

@[simp] theorem fraction_pack : fraction f (pack s E F) = F := by
  refine BitVec.eq_of_getLsbD_eq fun j hj => ?_
  rw [fraction, pack, BitVec.getLsbD_extractLsb', decide_eq_true hj, Bool.true_and, Nat.zero_add,
    BitVec.getLsbD_append, if_pos hj]

/-- A word is the pack of its fields. -/
theorem eq_pack (x : BitVec (1 + e + f)) : x = pack (sign e f x) (biased e f x) (fraction f x) := by
  refine BitVec.eq_of_getLsbD_eq fun j hj => ?_
  rw [pack, BitVec.getLsbD_append, BitVec.getLsbD_append]
  split_ifs with hF hE
  · rw [fraction, BitVec.getLsbD_extractLsb', decide_eq_true hF, Bool.true_and, Nat.zero_add]
  · rw [biased, BitVec.getLsbD_extractLsb', decide_eq_true hE, Bool.true_and,
      Nat.add_sub_cancel' (Nat.not_lt.1 hF)]
  · have htop : j = e + f := by omega
    have hzero : j - f - e = 0 := by omega
    rw [hzero, htop, sign]
    cases x.getLsbD (e + f) <;> rfl

/-- A part of the exponent field. -/
theorem extractLsb'_biased {w : ℕ} (x : BitVec w) {lo n : ℕ} (h : lo + n ≤ e) :
    (biased e f x).extractLsb' lo n = x.extractLsb' (f + lo) n := by
  refine BitVec.eq_of_getLsbD_eq fun j hj => ?_
  rw [biased, BitVec.getLsbD_extractLsb', BitVec.getLsbD_extractLsb', BitVec.getLsbD_extractLsb',
    decide_eq_true hj, decide_eq_true (by omega), Bool.true_and, Bool.true_and, Bool.true_and,
    Nat.add_assoc]

/-- A part of the fraction. -/
theorem extractLsb'_fraction {w : ℕ} (x : BitVec w) {lo n : ℕ} (h : lo + n ≤ f) :
    (fraction f x).extractLsb' lo n = x.extractLsb' lo n := by
  refine BitVec.eq_of_getLsbD_eq fun j hj => ?_
  rw [fraction, BitVec.getLsbD_extractLsb', BitVec.getLsbD_extractLsb', BitVec.getLsbD_extractLsb',
    decide_eq_true hj, decide_eq_true (by omega), Bool.true_and, Bool.true_and, Bool.true_and,
    Nat.zero_add]

end Pack

/-- The word of a number: its exponent field is not all ones. -/
def Finite (e f : ℕ) {w : ℕ} (x : BitVec w) : Prop := biased e f x ≠ BitVec.allOnes e

/-- The significand: a zero exponent field has no leading one. -/
def significand (e f : ℕ) {w : ℕ} (x : BitVec w) : ℕ :=
  if biased e f x = 0 then (fraction f x).toNat else 2 ^ f + (fraction f x).toNat

/-- The exponent of the lowest bit of the significand. -/
def lowExp (e f : ℕ) {w : ℕ} (x : BitVec w) : ℤ :=
  ((if biased e f x = 0 then 1 else (biased e f x).toNat : ℕ) : ℤ) - (2 ^ (e - 1) - 1) - f

/-- The number that a finite word stands for. -/
def value (e f : ℕ) {w : ℕ} (x : BitVec w) : ℚ :=
  (if sign e f x then -1 else 1) * significand e f x * 2 ^ lowExp e f x

theorem value_pack (s : Bool) (E : BitVec e) (F : BitVec f) : value e f (pack s E F) =
    (if s then -1 else 1) * ((if E = 0 then F.toNat else 2 ^ f + F.toNat : ℕ) : ℚ) *
      2 ^ (((if E = 0 then 1 else E.toNat : ℕ) : ℤ) - (2 ^ (e - 1) - 1) - f) := by
  rw [value, significand, lowExp, sign_pack, biased_pack, fraction_pack]

/-- The same number with a longer significand. -/
theorem scale_eq {a b k : ℕ} {x y : ℤ} (ha : a = b * 2 ^ k) (hy : y = x + k) (c : ℚ) :
    c * a * 2 ^ x = c * b * 2 ^ y := by
  rw [ha, hy, zpow_add₀ two_ne_zero, zpow_natCast]
  push_cast
  ring

end Binary
end Words
end SloPPC603
