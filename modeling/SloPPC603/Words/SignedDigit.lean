import Mathlib.Algebra.Order.Ring.Abs
import Mathlib.Tactic.Ring
import Mathlib.Tactic.Linarith

/-!
# Signed digits of a word

A signed number read a few bits at a time from below.  Each digit is the signed value of
its bits, plus the top bit of the digit before it, so that the digits read so far add up to
the signed value of the bits read so far, and reading can stop as soon as the bits left are
copies of the sign.

* `low` — the signed value of the low bits.
* `low_digit` — one more digit.
* `low_of_bounds` — the bits left are copies of the sign.
* `toInt_signExtend_mul` — a product of two words in a word wide enough for it.
-/

namespace SloPPC603
namespace Words

/-! ## The low bits of a number -/

/-- The signed value of the low `p` bits. -/
def low (x : ℤ) (p : ℕ) : ℤ := x.bmod (2 ^ p)

/-- The topmost of the low `p` bits. -/
def topBit (x : ℤ) (p : ℕ) : ℤ := if 2 ^ p ≤ 2 * (x % 2 ^ p) then 1 else 0

section Low

variable (x : ℤ) (p n : ℕ)

/-- The low bits, less their weight where the topmost is set. -/
theorem low_eq : low x p = x % 2 ^ p - 2 ^ p * topBit x p := by
  have hpow : (((2 ^ p : ℕ) : ℤ) + 1) / 2 ≤ x % 2 ^ p ↔ (2 : ℤ) ^ p ≤ 2 * (x % 2 ^ p) := by
    push_cast
    cases p with
    | zero => omega
    | succ p =>
      rw [pow_succ]
      omega
  rw [low, Int.bmod_eq_emod, topBit]
  push_cast at hpow ⊢
  by_cases htop : (2 : ℤ) ^ p ≤ 2 * (x % 2 ^ p)
  · rw [if_pos htop, if_pos (hpow.2 htop), mul_one]
  · rw [if_neg htop, if_neg (mt hpow.1 htop), mul_zero]

@[simp] theorem low_zero : low x 0 = 0 := by
  simp [low_eq, topBit]

/-- A remainder by a power of two, in two parts. -/
theorem emod_two_pow_add : x % 2 ^ (p + n) = 2 ^ p * (x / 2 ^ p % 2 ^ n) + x % 2 ^ p := by
  have hpos : (0 : ℤ) < 2 ^ p := by positivity
  have hsplit : x = 2 ^ p * (x / 2 ^ p) + x % 2 ^ p := (Int.mul_ediv_add_emod x _).symm
  have hrem : x / 2 ^ p = 2 ^ n * (x / 2 ^ p / 2 ^ n) + x / 2 ^ p % 2 ^ n :=
    (Int.mul_ediv_add_emod _ _).symm
  have hlow0 := Int.emod_nonneg x hpos.ne'
  have hlow1 := Int.emod_lt_of_pos x hpos
  have hposn : (0 : ℤ) < 2 ^ n := by positivity
  have hdig0 := Int.emod_nonneg (x / 2 ^ p) hposn.ne'
  have hdig1 := Int.emod_lt_of_pos (x / 2 ^ p) hposn
  have hwhole : x = (2 ^ p * (x / 2 ^ p % 2 ^ n) + x % 2 ^ p) +
      2 ^ (p + n) * (x / 2 ^ p / 2 ^ n) := by
    calc x = 2 ^ p * (x / 2 ^ p) + x % 2 ^ p := hsplit
      _ = 2 ^ p * (2 ^ n * (x / 2 ^ p / 2 ^ n) + x / 2 ^ p % 2 ^ n) + x % 2 ^ p := by rw [← hrem]
      _ = _ := by ring
  have hsmall : 2 ^ p * (x / 2 ^ p % 2 ^ n) + x % 2 ^ p < 2 ^ (p + n) := by
    calc 2 ^ p * (x / 2 ^ p % 2 ^ n) + x % 2 ^ p < 2 ^ p * (x / 2 ^ p % 2 ^ n) + 2 ^ p := by omega
      _ = 2 ^ p * (x / 2 ^ p % 2 ^ n + 1) := by ring
      _ ≤ 2 ^ p * 2 ^ n := Int.mul_le_mul_of_nonneg_left (by omega) hpos.le
      _ = 2 ^ (p + n) := (pow_add 2 p n).symm
  have hnonneg : 0 ≤ 2 ^ p * (x / 2 ^ p % 2 ^ n) + x % 2 ^ p :=
    Int.add_nonneg (Int.mul_nonneg hpos.le hdig0) hlow0
  calc x % 2 ^ (p + n) = (2 ^ p * (x / 2 ^ p % 2 ^ n) + x % 2 ^ p +
        2 ^ (p + n) * (x / 2 ^ p / 2 ^ n)) % 2 ^ (p + n) := congrArg (· % 2 ^ (p + n)) hwhole
    _ = _ := by rw [Int.add_mul_emod_self_left, Int.emod_eq_of_lt hnonneg hsmall]

/-- The topmost bit is that of the digit read last. -/
theorem topBit_add (hn : 0 < n) : topBit x (p + n) = topBit (x / 2 ^ p) n := by
  have hpos : (0 : ℤ) < 2 ^ p := by positivity
  have hlow0 := Int.emod_nonneg x hpos.ne'
  have hlow1 := Int.emod_lt_of_pos x hpos
  obtain ⟨n, rfl⟩ := Nat.exists_eq_add_of_le' hn
  have hhalf : (2 : ℤ) ^ (p + (n + 1)) ≤ 2 * (x % 2 ^ (p + (n + 1))) ↔
      (2 : ℤ) ^ (n + 1) ≤ 2 * (x / 2 ^ p % 2 ^ (n + 1)) := by
    rw [emod_two_pow_add, pow_add]
    generalize x / 2 ^ p % 2 ^ (n + 1) = d
    rw [pow_succ (2 : ℤ) n]
    constructor
    · intro h
      by_contra hlt
      have hle : d + 1 ≤ 2 ^ n := by omega
      have hmul : 2 ^ p * (d + 1) ≤ 2 ^ p * 2 ^ n := Int.mul_le_mul_of_nonneg_left hle hpos.le
      nlinarith
    · intro h
      have hle : 2 ^ n ≤ d := by omega
      have hmul : 2 ^ p * 2 ^ n ≤ 2 ^ p * d := Int.mul_le_mul_of_nonneg_left hle hpos.le
      nlinarith
  simp only [topBit, hhalf]

/-- **One more digit.** -/
theorem low_digit (hn : 0 < n) :
    low x (p + n) = low x p + 2 ^ p * (low (x / 2 ^ p) n + topBit x p) := by
  rw [low_eq x (p + n), low_eq x p, low_eq (x / 2 ^ p) n, topBit_add x p n hn,
    emod_two_pow_add, pow_add]
  ring

variable {x p n}

/-- **The bits above are copies of the sign** where the number is the value of its low bits. -/
theorem low_eq_self_iff : low x (p + 1) = x ↔ -2 ^ p ≤ x ∧ x < 2 ^ p := by
  constructor
  · intro h
    have hle := Int.le_bmod (x := x) (m := 2 ^ (p + 1)) (by positivity)
    have hlt := Int.bmod_lt (x := x) (m := 2 ^ (p + 1)) (by positivity)
    rw [low] at h
    rw [h] at hle hlt
    push_cast at hle hlt
    rw [pow_succ] at hle hlt
    omega
  · rintro ⟨hle, hlt⟩
    refine Int.bmod_eq_of_le ?_ ?_
    · push_cast
      rw [pow_succ]
      omega
    · push_cast
      rw [pow_succ]
      omega

end Low

/-! ## The bits of a word -/

section Word

variable {w : ℕ} (x : BitVec w) {p n : ℕ}

/-- The signed value is the unsigned one, less the word's size where the sign is set. -/
theorem toInt_eq_toNat_add : ∃ c : ℤ, x.toInt = x.toNat + 2 ^ w * c := by
  obtain ⟨c, hc⟩ := Int.dvd_bmod_sub_self (x := (x.toNat : ℤ)) (m := 2 ^ w)
  refine ⟨c, ?_⟩
  rw [BitVec.toInt_eq_toNat_bmod]
  push_cast at hc
  omega

theorem two_pow_split (hp : p ≤ w) : (2 : ℤ) ^ w = 2 ^ p * 2 ^ (w - p) := by
  rw [← pow_add]
  congr 1
  omega

theorem toInt_emod (hp : p ≤ w) : x.toInt % 2 ^ p = ((x.toNat % 2 ^ p : ℕ) : ℤ) := by
  obtain ⟨c, hc⟩ := toInt_eq_toNat_add x
  rw [hc, two_pow_split hp, mul_assoc, Int.add_mul_emod_self_left]
  push_cast
  rfl

/-- The low bits of a number do not depend on what is above them. -/
theorem low_congr {y z c : ℤ} {p q : ℕ} (hp : p ≤ q) (h : y = z + 2 ^ q * c) :
    low y p = low z p := by
  rw [h, two_pow_split hp, mul_assoc]
  exact Int.add_mul_bmod_self_left _ (2 ^ p) _

/-- The low bits of the word, signed. -/
theorem toInt_setWidth (hp : p ≤ w) : (x.setWidth p).toInt = low x.toInt p := by
  obtain ⟨c, hc⟩ := toInt_eq_toNat_add x
  rw [BitVec.toInt_setWidth, low_congr hp hc]
  rfl

/-- A field of the word, signed. -/
theorem toInt_extractLsb' (hpn : p + n ≤ w) :
    (x.extractLsb' p n).toInt = low (x.toInt / 2 ^ p) n := by
  obtain ⟨c, hc⟩ := toInt_eq_toNat_add x
  have hpos : (0 : ℤ) < 2 ^ p := by positivity
  have hsplit : (2 : ℤ) ^ w * c = 2 ^ p * (2 ^ n * (2 ^ (w - p - n) * c)) := by
    rw [two_pow_split (p := p) (by omega), two_pow_split (p := n) (w := w - p) (by omega)]
    ring
  have hdiv : x.toInt / 2 ^ p = ((x.toNat / 2 ^ p : ℕ) : ℤ) + 2 ^ n * (2 ^ (w - p - n) * c) := by
    rw [hc, hsplit, Int.add_mul_ediv_left _ _ hpos.ne']
    push_cast
    rfl
  rw [BitVec.toInt_extractLsb', Nat.shiftRight_eq_div_pow, low, hdiv]
  exact (Int.add_mul_bmod_self_left _ (2 ^ n) _).symm

/-- The bit below position `p`. -/
theorem topBit_toInt (hp : p < w) : topBit x.toInt (p + 1) = (x.getLsbD p).toInt := by
  have hbit : x.toNat % 2 ^ (p + 1) = x.toNat % 2 ^ p + 2 ^ p * (x.toNat / 2 ^ p % 2) := by
    rw [pow_succ, Nat.mod_mul]
  have hlt : x.toNat % 2 ^ p < 2 ^ p := Nat.mod_lt _ (Nat.two_pow_pos p)
  have htest : x.getLsbD p = decide (x.toNat / 2 ^ p % 2 = 1) := by
    rw [BitVec.getLsbD, Nat.testBit_eq_decide_div_mod_eq]
  rw [topBit, toInt_emod x hp, htest, hbit, pow_succ]
  generalize x.toNat % 2 ^ p = r at hlt
  rcases Nat.mod_two_eq_zero_or_one (x.toNat / 2 ^ p) with h0 | h1
  · rw [h0, mul_zero, Nat.add_zero, if_neg]
    · rfl
    · zify at hlt
      omega
  · rw [h1, mul_one, if_pos]
    · rfl
    · push_cast
      omega

/-- The whole field from `p` up, signed. -/
theorem toInt_extractLsb'_top (hp : p < w) :
    (x.extractLsb' p (w - p)).toInt = x.toInt / 2 ^ p := by
  obtain ⟨q, hq⟩ := Nat.exists_eq_add_of_lt hp
  have hpos : (0 : ℤ) < 2 ^ p := by positivity
  have hw : w - p = q + 1 := by omega
  have hpow : (2 : ℤ) ^ (w - 1) = 2 ^ q * 2 ^ p := by
    rw [← pow_add]
    congr 1
    omega
  have hle := BitVec.le_toInt x
  have hlt := BitVec.toInt_lt (x := x)
  rw [hpow] at hle hlt
  rw [toInt_extractLsb' x (by omega), hw, low_eq_self_iff, Int.le_ediv_iff_mul_le hpos,
    Int.ediv_lt_iff_lt_mul hpos]
  exact ⟨by rw [Int.neg_mul]; exact hle, hlt⟩

/-- **The bits from `p` up are copies of the sign.** -/
theorem uniform_iff (hp : p < w) :
    (x.extractLsb' p (w - p) = BitVec.allOnes (w - p) ∨ x.extractLsb' p (w - p) = 0) ↔
      low x.toInt (p + 1) = x.toInt := by
  have hpos : (0 : ℤ) < 2 ^ p := by positivity
  have hones : (BitVec.allOnes (w - p)).toInt = -1 := by
    rw [BitVec.toInt_allOnes, if_pos (by omega)]
  have hzero : (0 : BitVec (w - p)).toInt = 0 := BitVec.toInt_zero
  have htop := toInt_extractLsb'_top x hp
  have hdiv := Int.mul_ediv_add_emod x.toInt (2 ^ p)
  have hrem0 := Int.emod_nonneg x.toInt hpos.ne'
  have hrem1 := Int.emod_lt_of_pos x.toInt hpos
  rw [low_eq_self_iff, ← BitVec.toInt_inj, ← BitVec.toInt_inj, hones, hzero, htop]
  constructor
  · rintro (hneg | hnonneg)
    · rw [hneg] at hdiv
      omega
    · rw [hnonneg] at hdiv
      omega
  · rintro ⟨hle, hlt⟩
    have h1 : -1 ≤ x.toInt / 2 ^ p := by
      rw [Int.le_ediv_iff_mul_le hpos]
      omega
    have h2 : x.toInt / 2 ^ p < 1 := by
      rw [Int.ediv_lt_iff_lt_mul hpos]
      omega
    omega

end Word

/-! ## Products -/

/-- A product of two words, in a word as wide as both. -/
theorem toInt_signExtend_mul {n m k : ℕ} (hn : 0 < n) (hm : 0 < m) (hk : n + m ≤ k)
    (x : BitVec n) (y : BitVec m) :
    (x.signExtend k * y.signExtend k).toInt = x.toInt * y.toInt := by
  have hx0 := BitVec.le_toInt x
  have hx1 := BitVec.toInt_lt (x := x)
  have hy0 := BitVec.le_toInt y
  have hy1 := BitVec.toInt_lt (x := y)
  have habs : |x.toInt * y.toInt| ≤ 2 ^ (n - 1) * 2 ^ (m - 1) := by
    rw [abs_mul]
    exact mul_le_mul (abs_le.2 ⟨hx0, hx1.le⟩) (abs_le.2 ⟨hy0, hy1.le⟩) (abs_nonneg _) (by positivity)
  have hpow : (2 : ℤ) ^ (n - 1) * 2 ^ (m - 1) * 4 ≤ 2 ^ k := by
    have hsum : (2 : ℤ) ^ (n - 1) * 2 ^ (m - 1) * 4 = 2 ^ (n + m) := by
      rw [show (4 : ℤ) = 2 ^ 2 by rfl, ← pow_add, ← pow_add]
      congr 1
      omega
    rw [hsum]
    exact pow_le_pow_right₀ (by omega) hk
  have hpos : (0 : ℤ) < 2 ^ k := by positivity
  obtain ⟨hge, hle⟩ := abs_le.1 habs
  rw [BitVec.toInt_mul, BitVec.toInt_signExtend_of_le (by omega),
    BitVec.toInt_signExtend_of_le (by omega)]
  refine Int.bmod_eq_of_le_mul_two ?_ ?_
  · push_cast
    linarith
  · push_cast
    linarith

end Words
end SloPPC603
