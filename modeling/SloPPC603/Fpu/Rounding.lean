import SloPPC603.Fpu.CarrySelect
import SloPPC603.Fpu.Rounder

/-!
# Parallel rounding is rounding and then normalizing

`round_mantissa` forms the incremented significand in chunks, both exponents and both
overflow tests, and the normalized form of a denormal from the count of the significand
that was not rounded.  Its outputs are those of adding the increment first.

* `Settled` — a significand in place for rounding, normal or denormal.
* `Rounded`, `roundThenNormalize` — the increment added, then the exponent and the rest.
* `roundedUp_eq` — the chunks add one.
* `roundMantissa_exact` — the two agree.
-/

namespace SloPPC603
namespace Fpu

open Words

/-! ## Round, then normalize -/

/-- The bits of a significand. -/
def precision (single : Bool) : ℕ := if single then 24 else 53

/-- A rounded number: `significand` of `precision` bits, its last one worth two to the power
`exponent` less `precision - 1`. -/
structure Rounded where
  significand : ℕ
  exponent : ℤ
  overflow : Bool

/-- The increment is added to the significand; a carry out of it moves the exponent, the
exponent tells whether there is an overflow, and an enabled overflow scales it. -/
def roundThenNormalize (kept : ℕ) (increment : Bool) (exponent : ℤ) (single oe : Bool) : Rounded :=
  let sum := kept + increment.toNat
  let carry : Bool := 2 ^ precision single ≤ sum
  let exponent := exponent + carry.toNat
  let overflow : Bool := (maxExponent single).toInt < exponent
  { significand := if carry then sum / 2 else sum
    exponent := if overflow && oe then exponent - (trapScale single).toInt else exponent
    overflow := overflow }

/-- A significand in place for rounding: below bit 159, its first bit at 158 unless it is
denormal, when the exponent is the smallest and `single_lz` counts the zeros of what a
single result keeps. -/
structure Settled (value : RoundWork) (single : Bool) : Prop where
  ne_zero : value.magnitude ≠ 0
  lt : value.magnitude.toNat < 2 ^ 159
  denormal : value.magnitude.toNat < 2 ^ 158 → value.exponent = minExponent single ∧
    (single = true → value.magnitude.extractLsb' 135 24 ≠ 0 →
      Leads 24 value.singleLz.toNat (value.magnitude.extractLsb' 135 24).toNat)

/-- The outputs of a rounding that a rounded number gives.  A denormal single result is put
in the double format: a significand of 53 bits, with an exponent field that gives it the
value of the 24-bit one. -/
structure Agrees (post : RoundPost) (r : Rounded) (single : Bool) : Prop where
  wide : post.wide.toNat = r.significand * 2 ^ (53 - precision single)
  overflow : post.overflow = r.overflow
  ox : post.ox = r.overflow
  exponentIsMin : post.exponentIsMin = decide (r.exponent = (minExponent single).toInt)
  biasedExponent : (post.biasedExponent.toNat : ℤ) = (r.exponent + 1023) % 2 ^ 11
  nonzero : post.nonzero = decide (r.significand ≠ 0)
  lead : post.lead = decide (2 ^ (precision single - 1) ≤ r.significand)
  denormal : single = true → post.exponentIsMin = true → post.lead = false →
    post.nonzero = true → post.singleDenormBiasedExp.toNat ≤ 926 ∧
      post.singleNormalizedWide.toNat =
        r.significand * 2 ^ (926 - post.singleDenormBiasedExp.toNat) ∧
      2 ^ 52 ≤ post.singleNormalizedWide.toNat

/-! ## The increment -/

section Increment

theorem succ_div_two_pow (x lo : ℕ) :
    (x + 1) / 2 ^ lo = x / 2 ^ lo + if x % 2 ^ lo = 2 ^ lo - 1 then 1 else 0 := by
  have hpos := Nat.two_pow_pos lo
  have hmod := Nat.mod_lt x hpos
  have hx := Nat.div_add_mod x (2 ^ lo)
  generalize hq : x / 2 ^ lo = q at *
  generalize hr : x % 2 ^ lo = r at *
  have hsum : x + 1 = 2 ^ lo * q + (r + 1) := by omega
  rw [hsum, Nat.mul_add_div hpos]
  split_ifs with h
  · rw [show r + 1 = 2 ^ lo by omega, Nat.div_self hpos]
  · rw [Nat.div_eq_of_lt (by omega)]

/-- A chunk with the carry that reaches it is a chunk of the sum. -/
theorem upSegment_eq (kept : BitVec 53) {lo n : ℕ} (h : lo + n ≤ 53) :
    upSegment kept lo n = (kept + 1).extractLsb' lo n := by
  have hcarry : kept.extractLsb' 0 lo = BitVec.allOnes lo ↔
      kept.toNat % 2 ^ lo = 2 ^ lo - 1 := by
    rw [← BitVec.toNat_inj, BitVec.extractLsb'_toNat, Nat.shiftRight_zero, BitVec.toNat_allOnes]
  have hmod : (kept.toNat + 1) % 2 ^ 53 / 2 ^ lo % 2 ^ n = (kept.toNat + 1) / 2 ^ lo % 2 ^ n := by
    have hpow : 2 ^ 53 = 2 ^ lo * 2 ^ (53 - lo) := by rw [← pow_add, Nat.add_sub_cancel' (by omega)]
    rw [hpow, Nat.mod_mul_right_div_self, Nat.mod_mod_of_dvd _ (Nat.pow_dvd_pow 2 (by omega))]
  rw [← BitVec.toNat_inj, upSegment, BitVec.toNat_add, BitVec.extractLsb'_toNat,
    BitVec.extractLsb'_toNat, BitVec.toNat_add, BitVec.toNat_setWidth, BitVec.toNat_ofBool,
    Nat.shiftRight_eq_div_pow, Nat.shiftRight_eq_div_pow]
  change _ = (kept.toNat + 1) % 2 ^ 53 / 2 ^ lo % 2 ^ n
  rw [hmod, succ_div_two_pow, Nat.add_mod (kept.toNat / 2 ^ lo)]
  by_cases hc : kept.toNat % 2 ^ lo = 2 ^ lo - 1
  · rw [decide_eq_true (hcarry.2 hc), if_pos hc, Bool.toNat_true, Nat.add_mod]
  · rw [decide_eq_false (mt hcarry.1 hc), if_neg hc, Bool.toNat_false, Nat.add_mod]

/-- **The chunks add one.** -/
theorem roundedUp_eq (kept : BitVec 53) : roundedUp kept = kept + 1 := by
  have hsplit : ∀ y : BitVec 53, y.extractLsb' 45 8 ++ y.extractLsb' 36 9 ++ y.extractLsb' 27 9 ++
      y.extractLsb' 18 9 ++ y.extractLsb' 9 9 ++ y.extractLsb' 0 9 = y := by
    intro y
    refine BitVec.eq_of_getLsbD_eq fun j hj => ?_
    simp only [BitVec.getLsbD_append, BitVec.getLsbD_extractLsb']
    split_ifs <;> simp <;> grind
  rw [roundedUp, upSegment_eq kept (by decide), upSegment_eq kept (by decide),
    upSegment_eq kept (by decide), upSegment_eq kept (by decide), upSegment_eq kept (by decide),
    upSegment_eq kept (by decide), hsplit]

end Increment

/-! ## The exponent -/

section Exponent

variable (e : BitVec 16) (carry single oe : Bool)

/-- The exponent with its carry, scaled by an enabled overflow. -/
def exponentOut (overflow : Bool) : BitVec 16 :=
  if overflow && oe then if carry then e + 1 - trapScale single else e - trapScale single
  else if carry then e + 1 else e

theorem exponentOut_eq (overflow : Bool) : exponentOut e carry single oe overflow =
    BitVec.ofInt 16 (if overflow && oe then e.toInt + carry.toNat - (trapScale single).toInt
      else e.toInt + carry.toNat) := by
  have hcarry : BitVec.ofInt 16 (e.toInt + carry.toNat) = if carry then e + 1 else e := by
    rw [BitVec.ofInt_add, BitVec.ofInt_toInt]
    cases carry
    · exact BitVec.add_zero e
    · rfl
  have hsub : BitVec.ofInt 16 (e.toInt + carry.toNat - (trapScale single).toInt) =
      BitVec.ofInt 16 (e.toInt + carry.toNat) - trapScale single := by
    rw [Int.sub_eq_add_neg, BitVec.ofInt_add, BitVec.ofInt_neg, BitVec.ofInt_toInt,
      BitVec.sub_eq_add_neg]
  unfold exponentOut
  split_ifs with hscale hc
  · rw [hsub, hcarry, if_pos hc]
  · rw [hsub, hcarry, if_neg hc]
  · rw [hcarry, if_pos ‹_›]
  · rw [hcarry, if_neg ‹_›]

/-- **Both exponents and both overflow tests, made before the carry is known.** -/
theorem exponent_agrees (kept : ℕ) (increment : Bool)
    (hcarry : carry = decide (2 ^ precision single ≤ kept + increment.toNat)) :
    let r := roundThenNormalize kept increment e.toInt single oe
    let overflow : Bool :=
      if carry then (maxExponent single).toInt ≤ e.toInt else (maxExponent single).toInt < e.toInt
    overflow = r.overflow ∧
      decide (exponentOut e carry single oe overflow = minExponent single) =
        decide (r.exponent = (minExponent single).toInt) ∧
      (((exponentOut e carry single oe overflow + 1023).setWidth 11).toNat : ℤ) =
        (r.exponent + 1023) % 2 ^ 11 := by
  intro r overflow
  have hover : overflow = decide ((maxExponent single).toInt < e.toInt + carry.toNat) := by
    cases carry with
    | false => exact decide_eq_decide.2 (by simp)
    | true => exact decide_eq_decide.2 Int.lt_add_one_iff.symm
  have hr : r.overflow = overflow ∧ r.exponent = if overflow && oe then
      e.toInt + carry.toNat - (trapScale single).toInt else e.toInt + carry.toNat := by
    rw [hover, hcarry]
    exact ⟨rfl, rfl⟩
  have hlow := BitVec.le_toInt e
  have hhigh := BitVec.toInt_lt (x := e)
  have hle := Bool.toNat_le carry
  have hpos : (overflow && oe) = true → (maxExponent single).toInt < e.toInt + carry.toNat := by
    rw [hover, Bool.and_eq_true, decide_eq_true_eq]
    exact And.left
  have hmax : (127 : ℤ) ≤ (maxExponent single).toInt := by cases single <;> decide
  have hscale : 0 ≤ (trapScale single).toInt ∧ (trapScale single).toInt ≤ 1536 := by
    cases single <;> decide
  have hmin : -1022 ≤ (minExponent single).toInt ∧ (minExponent single).toInt ≤ -126 := by
    cases single <;> decide
  refine ⟨hr.1.symm, ?_, ?_⟩
  · rw [exponentOut_eq, hr.2]
    refine decide_eq_decide.2 ?_
    rw [← BitVec.toInt_inj, BitVec.toInt_ofInt, Int.bmod_eq_emod]
    split_ifs with h1 h2 h2
    all_goals
      first
        | have := hpos h1
          omega
        | omega
  · rw [exponentOut_eq, hr.2, BitVec.toNat_setWidth, BitVec.toNat_add, BitVec.toNat_ofInt]
    generalize (if (overflow && oe) = true then e.toInt + carry.toNat - (trapScale single).toInt
      else e.toInt + carry.toNat) = x
    have h1023 : (1023 : BitVec 16).toNat = 1023 := rfl
    rw [h1023]
    omega

end Exponent

/-! ## The significand -/

section Significand

variable {pre : RoundPre} {oe ue : Bool}

/-- A word of all ones is one that an increment carries out of. -/
theorem eq_allOnes_iff {w : ℕ} (k : BitVec w) : k = BitVec.allOnes w ↔ 2 ^ w ≤ k.toNat + 1 := by
  have hk := k.isLt
  rw [← BitVec.toNat_inj, BitVec.toNat_allOnes]
  omega

theorem carry_eq {w : ℕ} (k : BitVec w) (increment : Bool) :
    (increment && decide (k = BitVec.allOnes w)) = decide (2 ^ w ≤ k.toNat + increment.toNat) := by
  have hk := k.isLt
  cases increment with
  | false => simp [Nat.not_le.2 hk]
  | true => exact decide_eq_decide.2 (eq_allOnes_iff k)

/-- A word with its increment, or half of what it carries out to. -/
theorem toNat_rounded {w : ℕ} (k : BitVec (w + 1)) (increment : Bool) {top : BitVec (w + 1)}
    (htop : top.toNat = 2 ^ w) :
    (if decide (2 ^ (w + 1) ≤ k.toNat + increment.toNat) = true then top
      else if increment then k + 1 else k).toNat =
        if k.toNat + increment.toNat = 2 ^ (w + 1) then 2 ^ w else k.toNat + increment.toNat := by
  have hk := k.isLt
  have hone : (1 : BitVec (w + 1)).toNat = 1 := by simp
  simp only [decide_eq_true_eq]
  cases increment with
  | false =>
    have hno : ¬ 2 ^ (w + 1) ≤ k.toNat + 0 := Nat.not_le.2 hk
    have hne : k.toNat + 0 ≠ 2 ^ (w + 1) := Nat.ne_of_lt hk
    rw [Bool.toNat_false, if_neg hno, if_neg Bool.false_ne_true, if_neg hne]
    rfl
  | true =>
    rw [Bool.toNat_true]
    by_cases hc : k.toNat + 1 = 2 ^ (w + 1)
    · rw [if_pos hc.ge, if_pos hc, htop]
    · have hno : ¬ 2 ^ (w + 1) ≤ k.toNat + 1 := by omega
      rw [if_neg hno, if_pos rfl, if_neg hc, BitVec.toNat_add, hone, Nat.mod_eq_of_lt (by omega)]

/-- The top bit of a significand after its increment. -/
theorem lead_eq {w : ℕ} (k : BitVec (w + 1)) (increment : Bool) :
    (k.getLsbD w || (increment && decide (k.extractLsb' 0 w = BitVec.allOnes w))) =
      decide (2 ^ w ≤ k.toNat + increment.toNat) := by
  have hk := k.isLt
  have htop : k.getLsbD w = decide (2 ^ w ≤ k.toNat) := by
    rw [BitVec.getLsbD, Nat.testBit_eq_decide_div_mod_eq]
    have hlt : k.toNat / 2 ^ w < 2 := by
      rw [Nat.div_lt_iff_lt_mul (Nat.two_pow_pos w), ← pow_succ']
      exact hk
    rw [Nat.mod_eq_of_lt hlt]
    refine decide_eq_decide.2 ?_
    rw [← Nat.one_le_div_iff (Nat.two_pow_pos w)]
    omega
  have hlow : k.extractLsb' 0 w = BitVec.allOnes w ↔ k.toNat % 2 ^ w + 1 = 2 ^ w := by
    rw [eq_allOnes_iff, BitVec.extractLsb'_toNat, Nat.shiftRight_zero]
    have := Nat.mod_lt k.toNat (Nat.two_pow_pos w)
    omega
  rw [htop, Bool.decide_congr hlow]
  by_cases hge : 2 ^ w ≤ k.toNat
  · rw [decide_eq_true hge, decide_eq_true (Nat.le_trans hge (Nat.le_add_right _ _)), Bool.true_or]
  · rw [decide_eq_false hge, Nat.mod_eq_of_lt (Nat.not_le.1 hge), Bool.false_or]
    cases increment with
    | false => simp [hge]
    | true => exact decide_eq_decide.2 (by rw [Bool.toNat_true]; omega)

section Sum

variable {kept : ℕ} {increment single oe : Bool} {e : ℤ}

theorem significand_eq : (roundThenNormalize kept increment e single oe).significand =
    if 2 ^ precision single ≤ kept + increment.toNat then (kept + increment.toNat) / 2
    else kept + increment.toNat := by
  show (if decide _ = true then _ else _) = _
  simp only [decide_eq_true_eq]

theorem significand_ne_zero : decide ((roundThenNormalize kept increment e single oe).significand ≠ 0) =
    (increment || decide (kept ≠ 0)) := by
  have hpow : 2 ≤ 2 ^ precision single := by cases single <;> decide
  rw [significand_eq]
  cases increment with
  | false =>
    refine decide_eq_decide.2 ?_
    simp only [Bool.toNat_false]
    split_ifs <;> omega
  | true =>
    refine decide_eq_true ?_
    simp only [Bool.toNat_true]
    split_ifs <;> omega

theorem significand_lead (hk : kept < 2 ^ precision single) :
    decide (2 ^ (precision single - 1) ≤ (roundThenNormalize kept increment e single oe).significand) =
      decide (2 ^ (precision single - 1) ≤ kept + increment.toNat) := by
  have hpow : 2 ^ precision single = 2 * 2 ^ (precision single - 1) := by cases single <;> rfl
  have hle := Bool.toNat_le increment
  rw [significand_eq]
  refine decide_eq_decide.2 ?_
  split_ifs <;> omega

/-- The significand, carried or not, before it is widened. -/
theorem significand_of_le (hk : kept < 2 ^ precision single) :
    (roundThenNormalize kept increment e single oe).significand =
      if kept + increment.toNat = 2 ^ precision single then 2 ^ (precision single - 1)
      else kept + increment.toNat := by
  have hpow : 2 ^ precision single = 2 * 2 ^ (precision single - 1) := by cases single <;> rfl
  have hle := Bool.toNat_le increment
  rw [significand_eq]
  split_ifs <;> omega

end Sum

/-- **A double significand.** -/
theorem double_agrees (hz : pre.zero = false) : Agrees (roundMantissa pre false oe ue)
    (roundThenNormalize pre.kept.toNat pre.increment pre.exponent.toInt false oe) false := by
  have hk := pre.kept.isLt
  have hcarry := carry_eq pre.kept pre.increment
  obtain ⟨hover, hmin, hbiased⟩ := exponent_agrees pre.exponent
    (pre.increment && decide (pre.kept = BitVec.allOnes 53)) false oe pre.kept.toNat pre.increment
    hcarry
  unfold roundMantissa
  rw [if_neg (by rw [hz]; exact Bool.false_ne_true)]
  refine ⟨?_, hover, hover, hmin, hbiased, ?_, ?_, nofun⟩
  · show (if (pre.increment && decide (pre.kept = BitVec.allOnes 53)) = true then 1#1 ++ 0#52
      else if pre.increment then roundedUp pre.kept else pre.kept).toNat = _ * 1
    rw [Nat.mul_one, significand_of_le (by exact hk), hcarry, roundedUp_eq]
    exact toNat_rounded pre.kept pre.increment rfl
  · have hne : pre.kept ≠ 0 ↔ pre.kept.toNat ≠ 0 := by
      rw [ne_eq, ← BitVec.toNat_inj]
      rfl
    show (pre.increment || decide (pre.kept ≠ 0)) = _
    rw [Bool.decide_congr hne, significand_ne_zero]
  · exact (lead_eq pre.kept pre.increment).trans (@significand_lead pre.kept.toNat pre.increment false oe _ hk).symm

/-- A significand moved up by its leading zeros, and the exponent field less as much. -/
theorem normalized {y : BitVec 24} {lz : BitVec 6} (h : Leads 24 lz.toNat y.toNat) :
    (897 - lz.setWidth 11).toNat = 897 - lz.toNat ∧
      ((y ++ 0#29) <<< lz).toNat = y.toNat * 2 ^ (29 + lz.toNat) ∧
      2 ^ 52 ≤ ((y ++ 0#29) <<< lz).toNat := by
  have hle := h.le
  have hfit := h.2
  have hlead := h.1
  have hmove : y.toNat * 2 ^ 29 * 2 ^ lz.toNat = y.toNat * 2 ^ lz.toNat * 2 ^ 29 := by ring
  have hwide : ((y ++ 0#29) <<< lz).toNat = y.toNat * 2 ^ lz.toNat * 2 ^ 29 := by
    rw [BitVec.shiftLeft_eq', BitVec.toNat_shiftLeft, toNat_append, Nat.shiftLeft_eq]
    show (0 + y.toNat * 2 ^ 29) * 2 ^ lz.toNat % 2 ^ 53 = _
    rw [Nat.zero_add, hmove, Nat.mod_eq_of_lt (by omega)]
  refine ⟨?_, ?_, ?_⟩
  · have hset : (lz.setWidth 11).toNat = lz.toNat := by
      rw [BitVec.toNat_setWidth, Nat.mod_eq_of_lt (by omega)]
    have h897 : (897 : BitVec 11).toNat = 897 := rfl
    rw [BitVec.toNat_sub, hset, h897]
    omega
  · rw [hwide]
    ring
  · rw [hwide]
    omega

/-- **The double format of a denormal single result**, from the count of the significand
before its increment. -/
theorem denormal_agrees {k : BitVec 24} {lz : BitVec 6} {increment : Bool}
    (hlt : k.toNat + increment.toNat < 2 ^ 23) (hne : k.toNat + increment.toNat ≠ 0)
    (hlz : k ≠ 0 → Leads 24 lz.toNat k.toNat) :
    let power : Bool := ~~~k.extractLsb' 1 23 ||| k.extractLsb' 0 23 = BitVec.allOnes 23
    let biased : BitVec 11 :=
      if increment then
        if k = 0 then 874 else if power then 898 - lz.setWidth 11 else 897 - lz.setWidth 11
      else 897 - lz.setWidth 11
    let wide : BitVec 53 :=
      if increment then if power then 1#1 ++ 0#52 else (k + 1 ++ 0#29) <<< lz
      else (k ++ 0#29) <<< lz
    biased.toNat ≤ 926 ∧ wide.toNat = (k.toNat + increment.toNat) * 2 ^ (926 - biased.toNat) ∧
      2 ^ 52 ≤ wide.toNat := by
  intro power biased wide
  have hzero : k = 0 ↔ k.toNat = 0 := by
    rw [← BitVec.toNat_inj]
    rfl
  -- what a significand with its own count gives
  have hnorm : ∀ y : BitVec 24, Leads 24 lz.toNat y.toNat →
      (897 - lz.setWidth 11).toNat ≤ 926 ∧
        ((y ++ 0#29) <<< lz).toNat = y.toNat * 2 ^ (926 - (897 - lz.setWidth 11).toNat) ∧
        2 ^ 52 ≤ ((y ++ 0#29) <<< lz).toNat := by
    intro y hy
    obtain ⟨hb, hw, hge⟩ := normalized hy
    have hle := hy.le
    rw [hb]
    refine ⟨by omega, ?_, hge⟩
    rw [hw, show 926 - (897 - lz.toNat) = 29 + lz.toNat by omega]
  cases hi : increment with
  | false =>
    have hk : k ≠ 0 := by
      rw [hi, Bool.toNat_false, Nat.add_zero] at hne
      exact mt hzero.1 hne
    simp only [biased, wide, hi, if_neg Bool.false_ne_true]
    exact hnorm k (hlz hk)
  | true =>
    rw [hi, Bool.toNat_true] at hlt
    by_cases hp : power = true
    · -- one more makes a power of two
      obtain ⟨e, -, he⟩ := (runOfOnes_iff k).1 (of_decide_eq_true hp)
      have hwide : wide.toNat = 2 ^ 52 := by
        simp only [wide, hi, if_true, hp]
        rfl
      have hle : e < 23 := by
        rw [he] at hlt
        exact (Nat.pow_lt_pow_iff_right (by decide)).1 hlt
      have hbiased : biased.toNat = 874 + e := by
        by_cases hk : k = 0
        · have he0 : e = 0 := by
            rw [hzero.1 hk] at he
            exact (Nat.pow_eq_one.1 he.symm).resolve_left (by decide)
          simp only [biased, hi, if_true, hk, he0]
          rfl
        · have hsum := leads_pred_two_pow (hlz hk) he
          have hset : (lz.setWidth 11).toNat = lz.toNat := by
            rw [BitVec.toNat_setWidth, Nat.mod_eq_of_lt (by omega)]
          have h898 : (898 : BitVec 11).toNat = 898 := rfl
          simp only [biased, hi, if_true, if_neg hk, hp]
          rw [BitVec.toNat_sub, hset, h898]
          omega
      rw [hwide, hbiased, Bool.toNat_true, he, ← pow_add]
      refine ⟨by omega, ?_, le_rfl⟩
      rw [show e + (926 - (874 + e)) = 52 by omega]
    · have hnot : ∀ j ≤ 24, k.toNat + 1 ≠ 2 ^ j := by
        intro j hj hpow
        exact hp (decide_eq_true ((runOfOnes_iff k).2 ⟨j, hj, hpow⟩))
      have hk : k ≠ 0 := by
        intro hk
        exact hnot 0 (by decide) (by rw [hzero.1 hk]; rfl)
      have hone : (1 : BitVec 24).toNat = 1 := rfl
      have hup : (k + 1).toNat = k.toNat + 1 := by
        rw [BitVec.toNat_add, hone, Nat.mod_eq_of_lt (by omega)]
      have hsucc : Leads 24 lz.toNat (k + 1).toNat := by
        rw [hup]
        exact (hlz hk).succ hnot
      have h := hnorm (k + 1) hsucc
      rw [hup] at h
      simp only [biased, wide, hi, if_true, if_neg hk, if_neg hp]
      exact h

/-- **A single significand, denormal or not.** -/
theorem single_agrees {k : BitVec 24} (hz : pre.zero = false) (hk : pre.kept = 0#29 ++ k)
    (hden : k.toNat < 2 ^ 23 → k ≠ 0 → Leads 24 pre.singleLz.toNat k.toNat) :
    Agrees (roundMantissa pre true oe ue)
      (roundThenNormalize pre.kept.toNat pre.increment pre.exponent.toInt true oe) true := by
  have hkept : pre.kept.toNat = k.toNat := by rw [hk, toNat_append]; simp
  have hlow : pre.kept.extractLsb' 0 24 = k := by
    rw [← BitVec.toNat_inj, BitVec.extractLsb'_toNat, Nat.shiftRight_zero, hkept,
      Nat.mod_eq_of_lt k.isLt]
  have hup : (roundedUp pre.kept).extractLsb' 0 24 = k + 1 := by
    rw [roundedUp_eq, ← BitVec.toNat_inj, BitVec.extractLsb'_toNat, Nat.shiftRight_zero,
      BitVec.toNat_add, BitVec.toNat_add, hkept, Nat.mod_mod_of_dvd _ (by decide)]
    rfl
  have hcarry := carry_eq k pre.increment
  rw [← hkept] at hcarry
  obtain ⟨hover, hmin, hbiased⟩ := exponent_agrees pre.exponent
    (pre.increment && decide (k = BitVec.allOnes 24)) true oe pre.kept.toNat pre.increment hcarry
  unfold roundMantissa singleFields
  rw [if_neg (by rw [hz]; exact Bool.false_ne_true)]
  simp only [hlow, hup, if_true]
  refine ⟨?_, hover, hover, hmin, hbiased, ?_, ?_, ?_⟩
  · show ((if (pre.increment && decide (k = BitVec.allOnes 24)) = true then 0x800000#24
      else if pre.increment then k + 1 else k) ++ 0#29).toNat = _ * 2 ^ 29
    rw [toNat_append, hcarry, hkept, toNat_rounded k pre.increment rfl,
      significand_of_le (by exact k.isLt)]
    exact Nat.zero_add _
  · have hne : k ≠ 0 ↔ pre.kept.toNat ≠ 0 := by
      rw [hkept, ne_eq, ← BitVec.toNat_inj]
      rfl
    show (pre.increment || decide (k ≠ 0)) = _
    rw [Bool.decide_congr hne, significand_ne_zero]
  · rw [hkept]
    exact (lead_eq k pre.increment).trans (@significand_lead k.toNat pre.increment true oe _ k.isLt).symm
  · intro _ _ hlead hnz
    have hlead' : decide (2 ^ 23 ≤ k.toNat + pre.increment.toNat) = false :=
      (lead_eq k pre.increment).symm.trans hlead
    have hlt : k.toNat + pre.increment.toNat < 2 ^ 23 := by simpa using hlead'
    have hne : k.toNat + pre.increment.toNat ≠ 0 := by
      intro hsum
      have hi : pre.increment = false := by
        cases hi : pre.increment with
        | false => rfl
        | true => simp [hi] at hsum
      have hk0 : k = 0 := by
        rw [← BitVec.toNat_inj]
        exact Nat.eq_zero_of_add_eq_zero_right hsum
      simp [hi, hk0] at hnz
    have hsig : (roundThenNormalize pre.kept.toNat pre.increment pre.exponent.toInt true
        oe).significand = k.toNat + pre.increment.toNat := by
      rw [hkept, significand_of_le (by exact k.isLt)]
      exact if_neg (Nat.ne_of_lt (Nat.lt_trans hlt (by decide)))
    rw [hsig]
    exact denormal_agrees hlt hne (hden (Nat.lt_of_le_of_lt (Nat.le_add_right _ _) hlt))

end Significand

/-! ## The rounder -/

section Round

variable {value : RoundWork} {single : Bool}

/-- What is kept of a significand in place. -/
theorem prepareRoundMantissa_kept (rn : BitVec 2) (hne : value.magnitude ≠ 0) :
    (prepareRoundMantissa value single rn).kept =
      if single then 0#29 ++ value.magnitude.extractLsb' 135 24
      else value.magnitude.extractLsb' 106 53 := by
  unfold prepareRoundMantissa
  rw [if_neg hne]

theorem prepareRoundMantissa_rest (rn : BitVec 2) (hne : value.magnitude ≠ 0) :
    let pre := prepareRoundMantissa value single rn
    pre.zero = false ∧ pre.exponent = value.exponent ∧ pre.singleLz = value.singleLz := by
  intro pre
  have hpre : pre = prepareRoundMantissa value single rn := rfl
  unfold prepareRoundMantissa at hpre
  rw [if_neg hne] at hpre
  rw [hpre]
  exact ⟨decide_eq_false hne, rfl, rfl⟩

/-- The lead of a single significand is the first bit of the whole of it. -/
theorem kept_lt_iff (hlt : value.magnitude.toNat < 2 ^ 159) :
    (value.magnitude.extractLsb' 135 24).toNat < 2 ^ 23 ↔ value.magnitude.toNat < 2 ^ 158 := by
  rw [BitVec.extractLsb'_toNat, Nat.shiftRight_eq_div_pow]
  omega

/-- **Parallel rounding is rounding, then normalizing.** -/
theorem roundMantissa_exact (hs : Settled value single) (rn : BitVec 2) (oe ue : Bool) :
    let pre := prepareRoundMantissa value single rn
    Agrees (roundMantissa pre single oe ue)
      (roundThenNormalize pre.kept.toNat pre.increment value.exponent.toInt single oe) single := by
  intro pre
  obtain ⟨hz, he, hlz⟩ := @prepareRoundMantissa_rest _ single rn hs.ne_zero
  rw [← he]
  cases single with
  | false => exact double_agrees hz
  | true =>
    refine single_agrees hz (prepareRoundMantissa_kept rn hs.ne_zero) fun hlt hk => ?_
    rw [hlz]
    exact (hs.denormal ((kept_lt_iff hs.lt).1 hlt)).2 rfl hk

/-- The largest single denormal and more than half of its last place. -/
def largestDenormal : RoundWork :=
  { magnitude := (BitVec.allOnes 158).setWidth 160, exponent := minExponent true, singleLz := 1 }

/-- It is rounded up to the smallest normal number. -/
theorem roundMantissa_exact_largestDenormal :
    let pre := prepareRoundMantissa largestDenormal true 0b00
    Settled largestDenormal true ∧
      (roundThenNormalize pre.kept.toNat pre.increment (-126) true false).significand = 2 ^ 23 ∧
      Agrees (roundMantissa pre true false false)
        (roundThenNormalize pre.kept.toNat pre.increment (-126) true false) true := by
  have hs : Settled largestDenormal true :=
    ⟨by decide, by decide, fun _ => ⟨rfl, fun _ _ => ⟨by decide, by decide⟩⟩⟩
  exact ⟨hs, by decide, roundMantissa_exact hs 0b00 false false⟩

end Round

end Fpu
end SloPPC603
