import Mathlib.Data.Nat.ModEq
import Mathlib.Tactic.Ring
import SloPPC603.Clocked.Machine

/-!
# The divider

The registers and clock edge of `ppc_divider.sv`, a restoring divider that finds two bits
of the quotient of two magnitudes on each edge and restores the sign at the end.

* `Divider.step` — the clock edge.
* `div_digit` — one digit of a long division.
* `Dividing`, `dividing_step` — the state after some of the digits.
* `divide_exact` — the quotient of every division left to run.
-/

namespace SloPPC603
namespace Divider

open Clocked

/-! ## The divider -/

/-- The inputs of one cycle. -/
structure Input where
  rstN : Bool := true
  start : Bool := false
  cancel : Bool := false
  signed : Bool := false
  dividend : BitVec 32 := 0
  divisor : BitVec 32 := 0

/-- The registers. -/
structure State where
  remainder : BitVec 32
  dividend : BitVec 32
  divisor : BitVec 32
  quotient : BitVec 30
  quotientNegative : Bool
  exceptional : Bool
  iterationsLeft : BitVec 5
  busy : Bool
  quotientValid : Bool
  quotientOut : BitVec 32

/-- `start_dividend_magnitude` and `start_divisor_magnitude`. -/
def magnitude (signed : Bool) (x : BitVec 32) : BitVec 32 :=
  if signed && x.getLsbD 31 then ~~~x + 1 else x

/-- `start_exceptional`. -/
def startExceptional (i : Input) : Bool :=
  i.divisor = 0 || (i.signed && i.dividend = 0x80000000 && i.divisor = 0xffffffff)

section Signals

variable (s : State) (i : Input)

/-- `trial_remainder`. -/
def trialRemainder : BitVec 34 := s.remainder ++ s.dividend.extractLsb' 30 2

/-- `divisor_1x`. -/
def divisor1x : BitVec 34 := s.divisor.setWidth 34

/-- `divisor_2x`. -/
def divisor2x : BitVec 34 := (0#1 ++ s.divisor ++ 0#1)

/-- `divisor_3x`. -/
def divisor3x : BitVec 34 := divisor1x s + divisor2x s

/-- `quotient_digit`. -/
def quotientDigit : BitVec 2 :=
  if divisor3x s ≤ trialRemainder s then 3
  else if divisor2x s ≤ trialRemainder s then 2
  else if divisor1x s ≤ trialRemainder s then 1
  else 0

/-- `next_remainder`. -/
def nextRemainder : BitVec 34 :=
  if divisor3x s ≤ trialRemainder s then trialRemainder s - divisor3x s
  else if divisor2x s ≤ trialRemainder s then trialRemainder s - divisor2x s
  else if divisor1x s ≤ trialRemainder s then trialRemainder s - divisor1x s
  else trialRemainder s

/-- `next_quotient`. -/
def nextQuotient : BitVec 32 := s.quotient ++ quotientDigit s

/-- The quotient, its sign restored. -/
def restored : BitVec 32 :=
  if s.exceptional then 0
  else if s.quotientNegative then ~~~(nextQuotient s) + 1
  else nextQuotient s

/-- The control registers after an edge, beside the datapath's. -/
def control (d : State) : State :=
  if !i.rstN then
    { d with busy := false, quotientValid := false, quotientOut := 0, iterationsLeft := 0 }
  else if i.start then
    { d with busy := true, quotientValid := false, quotientOut := 0, iterationsLeft := 16 }
  else if i.cancel then
    { d with busy := false, quotientValid := false, quotientOut := 0, iterationsLeft := 0 }
  else if s.busy then
    { d with
      iterationsLeft := s.iterationsLeft - 1
      busy := if s.iterationsLeft = 1 then false else s.busy
      quotientValid := if s.iterationsLeft = 1 then true else s.quotientValid
      quotientOut := if s.iterationsLeft = 1 then restored s else s.quotientOut }
  else d

/-- The iteration datapath after an edge; it is not reset. -/
def datapath : State :=
  if i.start then
    { s with
      remainder := 0
      dividend := magnitude i.signed i.dividend
      divisor := if startExceptional i then 1 else magnitude i.signed i.divisor
      quotientNegative := i.signed && (i.dividend.getLsbD 31 != i.divisor.getLsbD 31)
      exceptional := startExceptional i }
  else if s.busy then
    { s with
      remainder := (nextRemainder s).setWidth 32
      dividend := s.dividend.extractLsb' 0 30 ++ 0#2
      quotient := (nextQuotient s).setWidth 30 }
  else s

/-- One clock edge. -/
def step : State := control s i (datapath s i)

end Signals

/-- The divider as a clocked machine, with any registers before the first edge. -/
def machine : Machine State Input where
  Initial := fun _ => True
  step := step

/-! ## Long division -/

section Digits

variable {b d p t : ℕ}

/-- **One digit of a long division.**  Bringing down the digit `t` behind the prefix `p`. -/
theorem div_digit (hd : 0 < d) : (b * p + t) / d = b * (p / d) + (b * (p % d) + t) / d ∧
    (b * p + t) % d = (b * (p % d) + t) % d := by
  have hsplit : b * p + t = d * (b * (p / d)) + (b * (p % d) + t) := by
    have hp : d * (p / d) + p % d = p := Nat.div_add_mod p d
    calc b * p + t = b * (d * (p / d) + p % d) + t := by rw [hp]
      _ = d * (b * (p / d)) + (b * (p % d) + t) := by ring
  rw [hsplit]
  exact ⟨Nat.mul_add_div hd _ _, Nat.mul_add_mod_self_left _ _ _⟩

end Digits

/-! ## One iteration -/

section Iteration

variable {s : State} {i : Input}

theorem toNat_append_two {n m : ℕ} (x : BitVec n) (y : BitVec m) :
    (x ++ y).toNat = 2 ^ m * x.toNat + y.toNat := by
  rw [BitVec.toNat_append, ← Nat.shiftLeft_add_eq_or_of_lt y.isLt, Nat.shiftLeft_eq, Nat.mul_comm]

theorem toNat_trialRemainder : (trialRemainder s).toNat =
    4 * s.remainder.toNat + s.dividend.toNat / 2 ^ 30 := by
  have hlt := s.dividend.isLt
  rw [trialRemainder, toNat_append_two, BitVec.extractLsb'_toNat, Nat.shiftRight_eq_div_pow]
  omega

theorem toNat_divisor1x : (divisor1x s).toNat = s.divisor.toNat := by
  have hlt := s.divisor.isLt
  rw [divisor1x, BitVec.toNat_setWidth]
  omega

theorem toNat_divisor2x : (divisor2x s).toNat = 2 * s.divisor.toNat := by
  have hlt := s.divisor.isLt
  rw [divisor2x, toNat_append_two, toNat_append_two]
  simp

theorem toNat_divisor3x : (divisor3x s).toNat = 3 * s.divisor.toNat := by
  have hlt := s.divisor.isLt
  rw [divisor3x, BitVec.toNat_add, toNat_divisor1x, toNat_divisor2x]
  omega

/-- **With the remainder below the divisor, the digit and the next remainder are those of
the division.** -/
theorem digit_exact (hr : s.remainder.toNat < s.divisor.toNat) :
    (trialRemainder s).toNat / s.divisor.toNat = (quotientDigit s).toNat ∧
      (trialRemainder s).toNat % s.divisor.toNat = (nextRemainder s).toNat := by
  have htop : s.dividend.toNat / 2 ^ 30 < 4 := by
    have hlt := s.dividend.isLt
    omega
  have htrial := @toNat_trialRemainder s
  have h1 := @toNat_divisor1x s
  have h2 := @toNat_divisor2x s
  have h3 := @toNat_divisor3x s
  rw [Nat.div_mod_unique (by omega)]
  unfold quotientDigit nextRemainder
  split_ifs with hge3 hge2 hge1
  · rw [BitVec.toNat_sub_of_le hge3]
    rw [BitVec.le_def] at hge3
    have hdigit : (3 : BitVec 2).toNat = 3 := rfl
    rw [hdigit]
    omega
  · rw [BitVec.toNat_sub_of_le hge2]
    rw [BitVec.le_def] at hge2 hge3
    have hdigit : (2 : BitVec 2).toNat = 2 := rfl
    rw [hdigit]
    omega
  · rw [BitVec.toNat_sub_of_le hge1]
    rw [BitVec.le_def] at hge1 hge2
    have hdigit : (1 : BitVec 2).toNat = 1 := rfl
    rw [hdigit]
    omega
  · rw [BitVec.le_def] at hge1
    have hdigit : (0 : BitVec 2).toNat = 0 := rfl
    rw [hdigit]
    omega

theorem toNat_nextQuotient : (nextQuotient s).toNat =
    4 * s.quotient.toNat + (quotientDigit s).toNat := toNat_append_two _ _

end Iteration

/-! ## The state of a division -/

/-- The state after the first `k` digits of the division of `a` by `d`. -/
structure Dividing (a d k : ℕ) (s : State) : Prop where
  divisor : s.divisor.toNat = d
  remainder : s.remainder.toNat = a / 4 ^ (16 - k) % d
  dividend : s.dividend.toNat = a % 4 ^ (16 - k) * 4 ^ k
  quotient : s.quotient.toNat % 4 ^ k = a / 4 ^ (16 - k) / d
  iterations : s.iterationsLeft.toNat = 16 - k
  busy : s.busy = true
  quotientValid : s.quotientValid = false
  quotientOut : s.quotientOut = 0

section Division

variable {a d k : ℕ} {s : State} {i : Input}

theorem pow_digits (hk : k < 16) : 4 ^ (16 - k) = 4 ^ (16 - (k + 1)) * 4 ∧
    (2 : ℕ) ^ 30 = 4 ^ (16 - (k + 1)) * 4 ^ k := by
  constructor
  · rw [← Nat.pow_succ]
    congr 1
    omega
  · rw [← Nat.pow_add, show 16 - (k + 1) + k = 15 by omega]
    rfl

/-- The prefix of the dividend after one more digit. -/
theorem prefix_step (hk : k < 16) : a / 4 ^ (16 - (k + 1)) =
    4 * (a / 4 ^ (16 - k)) + a / 4 ^ (16 - (k + 1)) % 4 := by
  rw [(pow_digits hk).1, ← Nat.div_div_eq_div_mul]
  omega

/-- The digit brought down. -/
theorem broughtDown (hk : k < 16) (h : Dividing a d k s) :
    s.dividend.toNat / 2 ^ 30 = a / 4 ^ (16 - (k + 1)) % 4 := by
  obtain ⟨hpow, htop⟩ := pow_digits hk
  rw [h.dividend, htop, Nat.mul_div_mul_right _ _ (Nat.pow_pos (by omega)), hpow,
    Nat.mod_mul_right_div_self]

/-- The digits still to be brought down. -/
theorem keptDown (hk : k < 16) (h : Dividing a d k s) :
    s.dividend.toNat % 2 ^ 30 = a % 4 ^ (16 - (k + 1)) * 4 ^ k := by
  obtain ⟨hpow, htop⟩ := pow_digits hk
  rw [h.dividend, htop, Nat.mul_mod_mul_right, hpow, Nat.mod_mul_right_mod]

/-- **One iteration is one digit of the division.** -/
theorem dividing_step (hd : 0 < d) (hk : k < 15) (hrst : i.rstN = true) (hstart : i.start = false)
    (hcancel : i.cancel = false) (h : Dividing a d k s) : Dividing a d (k + 1) (step s i) := by
  have hbusy := h.busy
  have hleft : s.iterationsLeft ≠ 1#5 := by
    intro hone
    have hval := h.iterations
    rw [hone] at hval
    have hone' : (1#5).toNat = 1 := rfl
    omega
  obtain ⟨hdigit, hnext⟩ := digit_exact (s := s) (by
    rw [h.remainder, h.divisor]
    exact Nat.mod_lt _ hd)
  have hdown := broughtDown (by omega) h
  have htrial : (trialRemainder s).toNat =
      4 * (a / 4 ^ (16 - k) % d) + a / 4 ^ (16 - (k + 1)) % 4 := by
    rw [toNat_trialRemainder, h.remainder, hdown]
  have hprefix := @prefix_step a k (by omega)
  have hkept := keptDown (by omega) h
  obtain ⟨hquot, hrem⟩ := @div_digit 4 d (a / 4 ^ (16 - k)) (a / 4 ^ (16 - (k + 1)) % 4) hd
  rw [← hprefix, ← htrial] at hquot hrem
  rw [h.divisor] at hdigit hnext
  constructor
  · simp [step, control, datapath, hrst, hstart, hcancel, hbusy, h.divisor]
  · have hreg : (step s i).remainder = (nextRemainder s).setWidth 32 := by
      simp [step, control, datapath, hrst, hstart, hcancel, hbusy]
    have hlt : (nextRemainder s).toNat < 2 ^ 32 := by
      have hmod := Nat.mod_lt (trialRemainder s).toNat hd
      have hword := s.divisor.isLt
      rw [h.divisor] at hword
      omega
    rw [hreg, BitVec.toNat_setWidth, Nat.mod_eq_of_lt hlt, ← hnext, hrem]
  · have hreg : (step s i).dividend = s.dividend.extractLsb' 0 30 ++ 0#2 := by
      simp [step, control, datapath, hrst, hstart, hcancel, hbusy]
    rw [hreg, toNat_append_two, BitVec.extractLsb'_toNat, Nat.shiftRight_zero, hkept,
      Nat.pow_succ]
    simp only [BitVec.toNat_ofNat]
    ring
  · have hreg : (step s i).quotient = (nextQuotient s).setWidth 30 := by
      simp [step, control, datapath, hrst, hstart, hcancel, hbusy]
    have hdvd : 4 ^ (k + 1) ∣ 2 ^ 30 := by
      rw [show (2 : ℕ) ^ 30 = 4 ^ 15 by rfl]
      exact Nat.pow_dvd_pow 4 (by omega)
    have hsplit : (nextQuotient s).toNat % (4 * 4 ^ k) =
        (quotientDigit s).toNat + 4 * (s.quotient.toNat % 4 ^ k) := by
      have hlt := (quotientDigit s).isLt
      rw [toNat_nextQuotient, Nat.mod_mul]
      congr 1
      · omega
      · congr 2
        omega
    rw [hreg, BitVec.toNat_setWidth, Nat.mod_mod_of_dvd _ hdvd, Nat.pow_succ, Nat.mul_comm,
      hsplit, h.quotient, hquot, hdigit]
    omega
  · have hreg : (step s i).iterationsLeft = s.iterationsLeft - 1 := by
      simp [step, control, datapath, hrst, hstart, hcancel, hbusy]
    have hval := h.iterations
    rw [hreg, BitVec.toNat_sub]
    have hone' : (1 : BitVec 5).toNat = 1 := rfl
    omega
  · simp [step, control, datapath, hrst, hstart, hcancel, hbusy, hleft]
  · simp [step, control, datapath, hrst, hstart, hcancel, hbusy, hleft, h.quotientValid]
  · simp [step, control, datapath, hrst, hstart, hcancel, hbusy, hleft, h.quotientOut]

/-- The last iteration gives the whole quotient. -/
theorem quotient_whole (hd : 0 < d) (h : Dividing a d 15 s) : (nextQuotient s).toNat = a / d := by
  obtain ⟨hdigit, -⟩ := digit_exact (s := s) (by
    rw [h.remainder, h.divisor]
    exact Nat.mod_lt _ hd)
  have hdown := broughtDown (by omega) h
  have htrial : (trialRemainder s).toNat =
      4 * (a / 4 ^ (16 - 15) % d) + a / 4 ^ (16 - (15 + 1)) % 4 := by
    rw [toNat_trialRemainder, h.remainder, hdown]
  have hprefix := @prefix_step a 15 (by omega)
  obtain ⟨hquot, -⟩ := @div_digit 4 d (a / 4 ^ (16 - 15)) (a / 4 ^ (16 - (15 + 1)) % 4) hd
  rw [← hprefix, ← htrial, ← h.divisor, hdigit, h.divisor] at hquot
  have hq : s.quotient.toNat = a / 4 ^ (16 - 15) / d := by
    rw [← h.quotient]
    exact (Nat.mod_eq_of_lt s.quotient.isLt).symm
  rw [toNat_nextQuotient, hq, ← hquot]
  simp

end Division

/-! ## Magnitudes and signs -/

section Signs

variable {signed : Bool} {x q : BitVec 32} {n : ℕ}

theorem not_add_one (x : BitVec 32) : ~~~x + 1 = -x := (BitVec.neg_eq_not_add x).symm

/-- The sign bit. -/
theorem sign_bit (x : BitVec 32) : x.getLsbD 31 = decide (x.toInt < 0) := by
  have hlt := x.isLt
  have hmsb : x.getLsbD 31 = decide (2 ^ 31 ≤ x.toNat) :=
    (BitVec.msb_eq_getLsbD_last x).symm.trans (BitVec.msb_eq_decide x)
  rw [hmsb, decide_eq_decide, BitVec.toInt_eq_toNat_cond]
  split_ifs <;> omega

theorem toNat_magnitude : (magnitude signed x).toNat =
    if signed then x.toInt.natAbs else x.toNat := by
  have hlt := x.isLt
  cases signed with
  | false => rfl
  | true =>
    rw [magnitude, Bool.true_and, sign_bit, not_add_one, if_pos rfl]
    split_ifs with hneg
    · rw [decide_eq_true_eq, BitVec.toInt_eq_toNat_cond] at hneg
      rw [BitVec.toNat_neg, BitVec.toInt_eq_toNat_cond]
      split_ifs at hneg ⊢ <;> omega
    · rw [decide_eq_true_eq, BitVec.toInt_eq_toNat_cond] at hneg
      rw [BitVec.toInt_eq_toNat_cond]
      split_ifs at hneg ⊢ <;> omega

/-- A quotient restored with its sign. -/
theorem toInt_restore (hq : q.toNat = n) : (n < 2 ^ 31 → q.toInt = n) ∧
    (n ≤ 2 ^ 31 → (~~~q + 1).toInt = -n) := by
  have hlt := q.isLt
  constructor
  · intro hn
    rw [BitVec.toInt_eq_toNat_cond, hq]
    split_ifs <;> omega
  · intro hn
    rw [not_add_one, BitVec.toInt_eq_toNat_cond, BitVec.toNat_neg, hq]
    split_ifs <;> omega

/-- Truncating division is division of the magnitudes. -/
theorem tdiv_natAbs (a b : ℤ) : a.tdiv b =
    if (decide (a < 0) != decide (b < 0)) = true then -((a.natAbs / b.natAbs : ℕ) : ℤ)
    else ((a.natAbs / b.natAbs : ℕ) : ℤ) := by
  have hpos : ∀ c : ℤ, 0 ≤ c → (c.natAbs : ℤ) = c := fun c hc => Int.natAbs_of_nonneg hc
  have hneg : ∀ c : ℤ, c < 0 → (c.natAbs : ℤ) = -c := fun c hc => Int.ofNat_natAbs_of_nonpos hc.le
  rw [Int.ofNat_tdiv]
  by_cases ha : a < 0 <;> by_cases hb : b < 0
  · rw [hneg a ha, hneg b hb, Int.neg_tdiv, Int.tdiv_neg]
    simp [ha, hb]
  · rw [hneg a ha, hpos b (not_lt.1 hb), Int.neg_tdiv]
    simp [ha, hb]
  · rw [hpos a (not_lt.1 ha), hneg b hb, Int.tdiv_neg]
    simp [ha, hb]
  · rw [hpos a (not_lt.1 ha), hpos b (not_lt.1 hb)]
    simp [ha, hb]

/-- A quotient as large as its dividend can be. -/
theorem natAbs_of_quotient {a b m : ℕ} (ha : a ≤ 2 ^ m) (h : 2 ^ m ≤ a / b) :
    a = 2 ^ m ∧ b = 1 := by
  have hpow : 0 < 2 ^ m := Nat.two_pow_pos m
  have hdiv : a / b ≤ a := Nat.div_le_self a b
  refine ⟨by omega, ?_⟩
  by_contra hb
  rcases Nat.eq_zero_or_pos b with hzero | hpos
  · rw [hzero, Nat.div_zero] at h
    omega
  · have hlt : a / b < a := Nat.div_lt_self (by omega) (by omega)
    omega

end Signs

/-- The quotient truncated toward zero, and zero where there is none or it does not fit. -/
def IsQuotient (i : Input) (q : BitVec 32) : Prop :=
  if i.divisor = 0 ∨ (i.signed = true ∧ i.dividend = 0x80000000 ∧ i.divisor = 0xffffffff) then
    q = 0
  else if i.signed then q.toInt = i.dividend.toInt.tdiv i.divisor.toInt
  else q.toNat = i.dividend.toNat / i.divisor.toNat

section Quotients

variable {i : Input} {q : BitVec 32}

theorem startExceptional_iff : startExceptional i = true ↔
    i.divisor = 0 ∨ (i.signed = true ∧ i.dividend = 0x80000000 ∧ i.divisor = 0xffffffff) := by
  simp [startExceptional, and_assoc]

/-- The sign restored on the quotient of the magnitudes gives the quotient. -/
theorem isQuotient_restored (hex : startExceptional i = false)
    (hq : q.toNat = (magnitude i.signed i.dividend).toNat / (magnitude i.signed i.divisor).toNat) :
    IsQuotient i (if i.signed && (i.dividend.getLsbD 31 != i.divisor.getLsbD 31) then ~~~q + 1
      else q) := by
  have hno := mt (@startExceptional_iff i).2 (by simp [hex])
  rw [IsQuotient, if_neg hno]
  rw [toNat_magnitude, toNat_magnitude] at hq
  cases hs : i.signed with
  | false =>
    rw [hs] at hq
    simpa using hq
  | true =>
    rw [hs, if_pos rfl, if_pos rfl] at hq
    obtain ⟨hpos, hneg⟩ := toInt_restore hq
    have ha := i.dividend.isLt
    have hb := i.divisor.isLt
    have hale : i.dividend.toInt.natAbs ≤ 2 ^ 31 := by
      rw [BitVec.toInt_eq_toNat_cond]
      split_ifs <;> omega
    have hle : i.dividend.toInt.natAbs / i.divisor.toInt.natAbs ≤ 2 ^ 31 :=
      (Nat.div_le_self _ _).trans hale
    rw [sign_bit, sign_bit, Bool.true_and, if_pos rfl]
    rw [tdiv_natAbs]
    split_ifs with hdiffer
    · exact hneg hle
    · apply hpos
      by_contra hbig
      obtain ⟨hA, hB⟩ := natAbs_of_quotient hale (Nat.le_of_not_lt hbig)
      -- only the most negative value by -1 has the same signs and so large a quotient
      have hmin : i.dividend.toInt = -2 ^ 31 := by
        have hupper : i.dividend.toInt < 2 ^ 31 := by
          rw [BitVec.toInt_eq_toNat_cond]
          split_ifs <;> omega
        omega
      have hone : i.divisor.toInt = -1 := by
        rw [hmin] at hdiffer
        by_contra hne
        have hpos1 : i.divisor.toInt = 1 := by omega
        rw [hpos1] at hdiffer
        exact hdiffer (by decide)
      exact hno (Or.inr ⟨hs, BitVec.eq_of_toInt_eq hmin, BitVec.eq_of_toInt_eq hone⟩)

end Quotients

/-! ## Along a run -/

/-- The divider is left to run: no reset, no start and no cancel. -/
def LeftAlone (i : Input) : Prop := i.rstN = true ∧ i.start = false ∧ i.cancel = false

/-- The state after `k` digits of the division that the input `i` started. -/
structure Started (i : Input) (k : ℕ) (s : State) : Prop where
  dividing : Dividing (magnitude i.signed i.dividend).toNat
    (if startExceptional i then 1 else (magnitude i.signed i.divisor).toNat) k s
  quotientNegative : s.quotientNegative =
    (i.signed && (i.dividend.getLsbD 31 != i.divisor.getLsbD 31))
  exceptional : s.exceptional = startExceptional i

section Started

variable {i j : Input} {s : State} {k : ℕ}

/-- The divisor is not zero. -/
theorem divisor_pos :
    0 < (if startExceptional i then 1 else (magnitude i.signed i.divisor).toNat) := by
  split_ifs with hex
  · exact Nat.one_pos
  · have hne : i.divisor ≠ 0 := fun hzero => hex (startExceptional_iff.2 (Or.inl hzero))
    rw [toNat_magnitude]
    split_ifs
    · rw [Int.natAbs_pos]
      intro hzero
      exact hne (BitVec.eq_of_toInt_eq (by rw [hzero]; rfl))
    · rw [Nat.pos_iff_ne_zero]
      intro hzero
      exact hne (BitVec.eq_of_toNat_eq hzero)

/-- A start leaves nothing of what was there before. -/
theorem started_start (hrst : i.rstN = true) (hstart : i.start = true) : Started i 0 (step s i) := by
  have hword := (magnitude i.signed i.dividend).isLt
  constructor
  · constructor
    · simp only [step, control, datapath, hrst, hstart, Bool.not_true, Bool.false_eq_true, if_false,
        if_true]
      split_ifs <;> rfl
    · have hzero : (magnitude i.signed i.dividend).toNat / 4 ^ (16 - 0) = 0 :=
        Nat.div_eq_of_lt (by simpa using hword)
      rw [hzero, Nat.zero_mod]
      simp [step, control, datapath, hrst, hstart]
    · have hwhole : (magnitude i.signed i.dividend).toNat % 4 ^ (16 - 0) =
          (magnitude i.signed i.dividend).toNat := Nat.mod_eq_of_lt (by simpa using hword)
      rw [hwhole, Nat.pow_zero, Nat.mul_one]
      simp [step, control, datapath, hrst, hstart]
    · have hzero : (magnitude i.signed i.dividend).toNat / 4 ^ (16 - 0) = 0 :=
        Nat.div_eq_of_lt (by simpa using hword)
      rw [hzero, Nat.zero_div, Nat.pow_zero, Nat.mod_one]
    all_goals simp [step, control, hrst, hstart]
  · simp [step, control, datapath, hrst, hstart]
  · simp [step, control, datapath, hrst, hstart]

/-- An iteration of a started division. -/
theorem started_step (hk : k < 15) (halone : LeftAlone j) (h : Started i k s) :
    Started i (k + 1) (step s j) := by
  obtain ⟨hrst, hstart, hcancel⟩ := halone
  refine ⟨dividing_step divisor_pos hk hrst hstart hcancel h.dividing, ?_, ?_⟩
  · have hkeep : (step s j).quotientNegative = s.quotientNegative := by
      simp [step, control, datapath, hrst, hstart, hcancel, h.dividing.busy]
    rw [hkeep, h.quotientNegative]
  · have hkeep : (step s j).exceptional = s.exceptional := by
      simp [step, control, datapath, hrst, hstart, hcancel, h.dividing.busy]
    rw [hkeep, h.exceptional]

/-- The last iteration shows the quotient. -/
theorem started_done (halone : LeftAlone j) (h : Started i 15 s) :
    (step s j).busy = false ∧ (step s j).quotientValid = true ∧
      IsQuotient i (step s j).quotientOut := by
  obtain ⟨hrst, hstart, hcancel⟩ := halone
  have hlast : s.iterationsLeft = 1#5 := BitVec.eq_of_toNat_eq h.dividing.iterations
  have hout : (step s j).quotientOut = restored s := by
    simp [step, control, datapath, hrst, hstart, hcancel, h.dividing.busy, hlast]
  refine ⟨?_, ?_, ?_⟩
  · simp [step, control, datapath, hrst, hstart, hcancel, h.dividing.busy, hlast]
  · simp [step, control, datapath, hrst, hstart, hcancel, h.dividing.busy, hlast]
  · rw [hout, restored, h.exceptional, h.quotientNegative]
    cases hex : startExceptional i with
    | true =>
      rw [if_pos rfl, IsQuotient, if_pos (startExceptional_iff.1 hex)]
    | false =>
      rw [if_neg Bool.false_ne_true]
      have hwhole := quotient_whole divisor_pos h.dividing
      rw [hex, if_neg Bool.false_ne_true] at hwhole
      exact isQuotient_restored hex hwhole

/-- An idle divider that is left alone keeps what it shows. -/
theorem kept (halone : LeftAlone j) (hbusy : s.busy = false) : step s j = s := by
  obtain ⟨hrst, hstart, hcancel⟩ := halone
  simp [step, control, datapath, hrst, hstart, hcancel, hbusy]

end Started

section Run

variable (r : Run machine) {n : ℕ}

/-- After a start and some edges left alone. -/
theorem started_run (hrst : (r.input n).rstN = true) (hstart : (r.input n).start = true) (k : ℕ)
    (hk : k ≤ 15) (halone : ∀ j, 1 ≤ j → j ≤ k → LeftAlone (r.input (n + j))) :
    Started (r.input n) k (r.state (n + 1 + k)) := by
  induction k with
  | zero => exact started_start hrst hstart
  | succ k ih =>
    have hprev := ih (by omega) fun j hj hjk => halone j hj (by omega)
    have hinput : n + 1 + k = n + (k + 1) := by omega
    have hedge := halone (k + 1) (by omega) le_rfl
    rw [← hinput] at hedge
    exact started_step (by omega) hedge hprev

/-- **Integer division is exact.**  After a start, and as long as there is no reset, no other
start and no cancel, the divider is busy for sixteen iterations, before each of which the
remainder is below the divisor, so that the digit and the next remainder are those of the
division and no subtraction underflows; and from then on it shows the quotient of the
operands that were started, whatever it did before.  After a cancel it shows nothing until
the next start. -/
theorem divide_exact :
    (∀ n, (r.input n).rstN = true → (r.input n).start = true →
      (∀ m, 1 ≤ m → m ≤ 16 → (∀ k, 1 ≤ k → k < m → LeftAlone (r.input (n + k))) →
        let s := r.state (n + m)
        s.busy = true ∧ s.quotientValid = false ∧ s.quotientOut = 0 ∧
          s.iterationsLeft.toNat = 17 - m ∧ s.remainder.toNat < s.divisor.toNat ∧
          (trialRemainder s).toNat =
            (quotientDigit s).toNat * s.divisor.toNat + (nextRemainder s).toNat ∧
          (nextRemainder s).toNat < s.divisor.toNat) ∧
      (∀ m, 17 ≤ m → (∀ k, 1 ≤ k → k < m → LeftAlone (r.input (n + k))) →
        let s := r.state (n + m)
        s.busy = false ∧ s.quotientValid = true ∧ IsQuotient (r.input n) s.quotientOut)) ∧
    (∀ n, (r.input n).cancel = true → (r.input n).start = false →
      ∀ m, 1 ≤ m → (∀ k, 1 ≤ k → k < m → (r.input (n + k)).start = false) →
        let s := r.state (n + m)
        s.busy = false ∧ s.quotientValid = false ∧ s.quotientOut = 0) := by
  refine ⟨?_, ?_⟩
  · intro n hrst hstart
    refine ⟨?_, ?_⟩
    · intro m hm hm16 halone
      have hstarted := started_run r hrst hstart (m - 1) (by omega) fun j hj hjk =>
        halone j hj (by omega)
      have hindex : n + 1 + (m - 1) = n + m := by omega
      rw [hindex] at hstarted
      have hdiv := hstarted.dividing
      have hbelow : (r.state (n + m)).remainder.toNat < (r.state (n + m)).divisor.toNat := by
        rw [hdiv.remainder, hdiv.divisor]
        exact Nat.mod_lt _ divisor_pos
      obtain ⟨hdigit, hnext⟩ := digit_exact hbelow
      refine ⟨hdiv.busy, hdiv.quotientValid, hdiv.quotientOut, ?_, hbelow, ?_, ?_⟩
      · rw [hdiv.iterations]
        omega
      · rw [← hdigit, ← hnext, Nat.mul_comm]
        exact (Nat.div_add_mod _ _).symm
      · rw [← hnext]
        exact Nat.mod_lt _ (by omega)
    · intro m hm
      induction m, hm using Nat.le_induction with
      | base =>
        intro halone
        have hstarted := started_run r hrst hstart 15 le_rfl fun j hj hjk =>
          halone j hj (by omega)
        exact started_done (halone 16 (by omega) (by omega)) hstarted
      | succ m hm ih =>
        intro halone
        obtain ⟨hbusy, hrest⟩ := ih fun k hk hkm => halone k hk (by omega)
        have hkept := kept (halone m (by omega) (by omega)) hbusy
        have hstate : r.state (n + (m + 1)) = r.state (n + m) := hkept
        rw [hstate]
        exact ⟨hbusy, hrest⟩
  · intro n hcancel hstart m hm
    induction m, hm using Nat.le_induction with
    | base =>
      intro _
      have hstate : r.state (n + 1) = step (r.state n) (r.input n) := rfl
      rw [hstate]
      cases hrst : (r.input n).rstN <;> simp [step, control, hrst, hstart, hcancel]
    | succ m hm ih =>
      intro hfree
      obtain ⟨hbusy, hvalid, hout⟩ := ih fun k hk hkm => hfree k hk (by omega)
      have hno := hfree m hm (Nat.lt_succ_self m)
      have hstate : r.state (n + (m + 1)) = step (r.state (n + m)) (r.input (n + m)) := rfl
      rw [hstate]
      cases hrst : (r.input (n + m)).rstN <;> cases hc : (r.input (n + m)).cancel <;>
        simp [step, control, datapath, hrst, hno, hc, hbusy, hvalid, hout]

end Run

/-- `-7 / 2`, from registers left by another division. -/
def minusSeven : Run machine where
  start := ⟨9, 5, 3, 8, false, true, 4, true, false, 0⟩
  initial := trivial
  input
    | 0 => { start := true, signed := true, dividend := 0xfffffff9, divisor := 2 }
    | _ => {}

theorem divide_exact_minusSeven : (minusSeven.state 17).quotientOut.toInt = -3 := by
  have halone : ∀ k, 1 ≤ k → k < 17 → LeftAlone (minusSeven.input (0 + k)) := by
    intro k hk _
    obtain ⟨k, rfl⟩ := Nat.exists_eq_add_of_le' hk
    exact ⟨rfl, rfl, rfl⟩
  obtain ⟨-, -, hquot⟩ := ((divide_exact minusSeven).1 0 rfl rfl).2 17 le_rfl halone
  rw [IsQuotient, if_neg (by decide), if_pos (by decide)] at hquot
  exact hquot.trans (by decide)

end Divider
end SloPPC603
