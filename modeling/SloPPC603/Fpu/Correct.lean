import Mathlib.Tactic.Positivity
import SloPPC603.Fpu.Rounding
import SloPPC603.Words.Binary

/-!
# The packed result is the rounded number

`prepare_round_mantissa`, `round_mantissa` and `finish_rounded` together, from a significand
in place to the word of the result.

* `Direction.round` — a binary fraction rounded to an integer.
* `prepared` — the guard bit and the sticky bit decide the rounding.
* `Returns`, `finishRounded_correct` — the result is the number rounded to its format, and
  the flags tell what the rounding did.
-/

namespace SloPPC603
namespace Fpu

open Words

/-! ## Rounding to an integer -/

/-- The directions a magnitude is rounded in. -/
inductive Direction where
  | nearest | down | up
  deriving DecidableEq

/-- The fraction `m / 2 ^ t` rounded to an integer; of two as near, the even one. -/
def Direction.round (m t : ℕ) : Direction → ℕ
  | .nearest =>
    if 2 * (m % 2 ^ t) < 2 ^ t ∨ 2 * (m % 2 ^ t) = 2 ^ t ∧ Even (m / 2 ^ t) then m / 2 ^ t
    else m / 2 ^ t + 1
  | .down => m / 2 ^ t
  | .up => if m % 2 ^ t = 0 then m / 2 ^ t else m / 2 ^ t + 1

/-- The direction a rounding mode has for the magnitude of a number of a sign. -/
def direction (rn : BitVec 2) (sign : Bool) : Direction :=
  match rn with
  | 0b00#2 => .nearest
  | 0b01#2 => .down
  | 0b10#2 => if sign then .down else .up
  | _ => if sign then .up else .down

/-- **The increment rounds**: it is made of the lowest bit, the bit below it and the rest. -/
theorem round_eq (rn : BitVec 2) (sign : Bool) (m t : ℕ) :
    (direction rn sign).round m (t + 1) = m / 2 ^ (t + 1) +
      (increments rn sign (m / 2 ^ (t + 1) % 2 = 1) (m / 2 ^ t % 2 = 1) (m % 2 ^ t ≠ 0)).toNat := by
  have hpow : 2 ^ (t + 1) = 2 * 2 ^ t := pow_succ' 2 t
  have hsplit : m % 2 ^ (t + 1) = m % 2 ^ t + 2 ^ t * (m / 2 ^ t % 2) := by
    rw [pow_succ, Nat.mod_mul]
  have hmod := Nat.mod_lt m (Nat.two_pow_pos t)
  have hodd : Even (m / 2 ^ (t + 1)) ↔ ¬ m / 2 ^ (t + 1) % 2 = 1 := by
    rw [Nat.even_iff]
    omega
  have hbit := Nat.mod_two_eq_zero_or_one (m / 2 ^ t)
  have hnearest : Direction.nearest.round m (t + 1) = m / 2 ^ (t + 1) +
      (decide (m / 2 ^ t % 2 = 1) &&
        (decide (m % 2 ^ t ≠ 0) || decide (m / 2 ^ (t + 1) % 2 = 1))).toNat := by
    simp only [Direction.round, hodd]
    rcases hbit with hb | hb <;> rw [hb] at hsplit <;> by_cases hs : m % 2 ^ t = 0 <;>
      by_cases ho : m / 2 ^ (t + 1) % 2 = 1 <;> simp [hb, hs, ho] <;> omega
  have hup : Direction.up.round m (t + 1) = m / 2 ^ (t + 1) +
      (decide (m / 2 ^ t % 2 = 1) || decide (m % 2 ^ t ≠ 0)).toNat := by
    rw [Direction.round]
    rcases hbit with hb | hb <;> rw [hb] at hsplit <;> by_cases hs : m % 2 ^ t = 0 <;>
      simp [hb, hs] <;> omega
  have hmode : rn = 0b00 ∨ rn = 0b01 ∨ rn = 0b10 ∨ rn = 0b11 := by
    revert rn
    decide
  rcases hmode with rfl | rfl | rfl | rfl
  · exact hnearest
  · rfl
  all_goals
    cases sign
    · first | exact hup | rfl
    · first | exact hup | rfl

/-! ## What is kept -/

section Prepare

variable {value : RoundWork} {single : Bool}

/-- The bits below those that are kept. -/
def dropped (single : Bool) : ℕ := if single then 135 else 106

/-- **What is kept, with its increment**, is the significand rounded. -/
theorem prepared (hs : Settled value single) (rn : BitVec 2) :
    let pre := prepareRoundMantissa value single rn
    let m := value.magnitude.toNat
    pre.kept.toNat = m / 2 ^ dropped single ∧
      pre.kept.toNat + pre.increment.toNat =
        (direction rn value.sign).round m (dropped single) ∧
      pre.inexact = decide (m % 2 ^ dropped single ≠ 0) := by
  intro pre m
  have hm : m < 2 ^ 159 := hs.lt
  have hkept : pre.kept.toNat = m / 2 ^ dropped single := by
    show (prepareRoundMantissa value single rn).kept.toNat = _
    rw [prepareRoundMantissa_kept rn hs.ne_zero]
    cases single with
    | true =>
      rw [if_pos rfl, toNat_append, BitVec.extractLsb'_toNat, Nat.shiftRight_eq_div_pow]
      simp [dropped]
      omega
    | false =>
      rw [if_neg Bool.false_ne_true, BitVec.extractLsb'_toNat, Nat.shiftRight_eq_div_pow]
      simp [dropped]
      omega
  have hodd : pre.kept.getLsbD 0 = decide (m / 2 ^ dropped single % 2 = 1) := by
    rw [← hkept, BitVec.getLsbD, Nat.testBit_zero]
  have hguard : ∀ t, value.magnitude.getLsbD t = decide (m / 2 ^ t % 2 = 1) := fun t => by
    rw [BitVec.getLsbD, Nat.testBit_eq_decide_div_mod_eq]
  have hsticky : ∀ t, (decide (value.magnitude.extractLsb' 0 t ≠ 0) : Bool) =
      decide (m % 2 ^ t ≠ 0) := fun t => by
    refine decide_eq_decide.2 (not_congr ?_)
    rw [← BitVec.toNat_inj, BitVec.extractLsb'_toNat, Nat.shiftRight_zero]
    exact Iff.rfl
  have hrest : ∀ t, (decide (m / 2 ^ t % 2 = 1) || decide (m % 2 ^ t ≠ 0)) =
      decide (m % 2 ^ (t + 1) ≠ 0) := fun t => by
    have hsplit : m % 2 ^ (t + 1) = m % 2 ^ t + 2 ^ t * (m / 2 ^ t % 2) := by
      rw [pow_succ, Nat.mod_mul]
    have hpos := Nat.two_pow_pos t
    rw [← Bool.decide_or, hsplit]
    rcases Nat.mod_two_eq_zero_or_one (m / 2 ^ t) with h | h <;> rw [h] <;> simp
  have hpre : pre.increment = increments rn value.sign (pre.kept.getLsbD 0)
      (decide (m / 2 ^ (dropped single - 1) % 2 = 1)) (decide (m % 2 ^ (dropped single - 1) ≠ 0)) ∧
      pre.inexact = (decide (m / 2 ^ (dropped single - 1) % 2 = 1) ||
        decide (m % 2 ^ (dropped single - 1) ≠ 0)) := by
    rw [← hguard, ← hsticky]
    show (prepareRoundMantissa value single rn).increment = increments _ _
      ((prepareRoundMantissa value single rn).kept.getLsbD 0) _ _ ∧
        (prepareRoundMantissa value single rn).inexact = _
    unfold prepareRoundMantissa
    rw [if_neg hs.ne_zero]
    cases single <;> exact ⟨rfl, rfl⟩
  have hsucc : dropped single - 1 + 1 = dropped single := by cases single <;> rfl
  refine ⟨hkept, ?_, ?_⟩
  · rw [hpre.1, hodd, hkept, ← hsucc, round_eq]
    rfl
  · rw [hpre.2, hrest, hsucc]

/-- Rounding in parallel is rounding, then normalizing. -/
theorem agrees (hs : Settled value single) (rn : BitVec 2) (ue : Bool) :
    let pre := prepareRoundMantissa value single rn
    Agrees (roundMantissa pre single false ue)
      (roundThenNormalize pre.kept.toNat pre.increment value.exponent.toInt single false)
      single := by
  intro pre
  obtain ⟨hz, he, hlz⟩ := @prepareRoundMantissa_rest _ single rn hs.ne_zero
  rw [← he]
  cases single with
  | false => exact double_agrees hz
  | true =>
    refine single_agrees hz (prepareRoundMantissa_kept rn hs.ne_zero) fun hlt hk => ?_
    rw [hlz]
    exact (hs.denormal ((kept_lt_iff hs.lt).1 hlt)).2 rfl hk

end Prepare

/-! ## The number -/

section Number

variable {value : RoundWork} {single : Bool}

/-- The exponent of the last place kept. -/
def lastPlace (value : RoundWork) (single : Bool) : ℤ :=
  value.exponent.toInt - (precision single - 1)

/-- A significand rounded to its precision. -/
def roundedTo (value : RoundWork) (single : Bool) (rn : BitVec 2) : ℕ :=
  (direction rn value.sign).round value.magnitude.toNat (dropped single)

/-- The number that the significand is rounded to. -/
def number (value : RoundWork) (single : Bool) (rn : BitVec 2) : ℚ :=
  roundedTo value single rn * 2 ^ lastPlace value single

/-- The rounded number, normalized. -/
structure Normalized (r : Rounded) (single : Bool) (x : ℚ) : Prop where
  value : (r.significand : ℚ) * 2 ^ (r.exponent - (precision single - 1)) = x
  lt : r.significand < 2 ^ precision single
  least : (minExponent single).toInt ≤ r.exponent
  lead : (minExponent single).toInt < r.exponent → 2 ^ (precision single - 1) ≤ r.significand
  overflow : r.overflow = decide ((maxExponent single).toInt < r.exponent)

theorem rounded_normalized (hs : Settled value single)
    (hE : (minExponent single).toInt ≤ value.exponent.toInt) (rn : BitVec 2) :
    let pre := prepareRoundMantissa value single rn
    Normalized (roundThenNormalize pre.kept.toNat pre.increment value.exponent.toInt single false)
      single (number value single rn) := by
  intro pre
  obtain ⟨hkept, hsum, -⟩ := prepared hs rn
  have hpow : 2 ^ precision single = 2 * 2 ^ (precision single - 1) := by cases single <;> rfl
  have hlt : pre.kept.toNat < 2 ^ precision single := by
    have hm := hs.lt
    rw [hkept, Nat.div_lt_iff_lt_mul (Nat.two_pow_pos _)]
    cases single <;> exact hm
  have hlow : value.magnitude.toNat < 2 ^ 158 ∨ 2 ^ (precision single - 1) ≤ pre.kept.toNat := by
    rcases Nat.lt_or_ge value.magnitude.toNat (2 ^ 158) with h | h
    · exact Or.inl h
    · refine Or.inr ?_
      rw [hkept, Nat.le_div_iff_mul_le (Nat.two_pow_pos _)]
      cases single <;> exact h
  have hle := Bool.toNat_le pre.increment
  set r := roundThenNormalize pre.kept.toNat pre.increment value.exponent.toInt single false with hr
  have hsig : r.significand = if pre.kept.toNat + pre.increment.toNat = 2 ^ precision single
      then 2 ^ (precision single - 1) else pre.kept.toNat + pre.increment.toNat :=
    significand_of_le hlt
  have hexp : r.exponent = value.exponent.toInt +
      if pre.kept.toNat + pre.increment.toNat = 2 ^ precision single then 1 else 0 := by
    have hcarry : (2 ^ precision single ≤ pre.kept.toNat + pre.increment.toNat) ↔
        pre.kept.toNat + pre.increment.toNat = 2 ^ precision single := by omega
    simp only [hr, roundThenNormalize, Bool.and_false, Bool.false_eq_true, if_false, hcarry]
    split_ifs with h <;> simp [h]
  have hden : value.magnitude.toNat < 2 ^ 158 → value.exponent.toInt = (minExponent single).toInt :=
    fun h => by rw [(hs.denormal h).1]
  have hnum : number value single rn = (pre.kept.toNat + pre.increment.toNat : ℕ) *
      2 ^ (value.exponent.toInt - (precision single - 1)) := by
    rw [hsum]
    rfl
  rw [hnum]
  have hover : r.overflow = decide ((maxExponent single).toInt < r.exponent) := by
    simp [hr, roundThenNormalize]
  generalize hn : pre.kept.toNat + pre.increment.toNat = n at *
  split_ifs at hsig hexp with hc
  · refine ⟨?_, by rw [hsig]; omega, by omega, fun _ => hsig.ge, hover⟩
    rw [hsig, hexp, hc, hpow, add_sub_right_comm, zpow_add_one₀ two_ne_zero]
    push_cast
    ring
  · refine ⟨by rw [hsig, hexp, Int.add_zero], by omega, by omega, fun h => ?_, hover⟩
    rcases hlow with h158 | h158
    · have := hden h158
      omega
    · omega

end Number

/-! ## The result -/

section Result

variable {value : RoundWork} {single : Bool} {rn : BitVec 2}

/-- The number is beyond those the format has. -/
def Overflows (value : RoundWork) (single : Bool) (rn : BitVec 2) : Prop :=
  2 ^ ((maxExponent single).toInt + 1) ≤ number value single rn

/-- The sign of a result. -/
def withSign (value : RoundWork) (x : ℚ) : ℚ :=
  (if value.sign ^^ value.negateFinal then -1 else 1) * x

/-- A word stands for a number. -/
def StandsFor (word : BitVec 64) (x : ℚ) : Prop :=
  Binary.Finite 11 52 word ∧ Binary.value 11 52 word = x

/-- What the rounder answers: the rounded number, on an overflow infinity or the largest number
as the direction is, and the flags. -/
structure Returns (value : RoundWork) (single : Bool) (rn : BitVec 2) (out : ArithRsp) : Prop where
  finite : ¬ Overflows value single rn →
    StandsFor out.result (withSign value (number value single rn))
  overflow : Overflows value single rn →
    if direction rn value.sign = .down then
      StandsFor out.result (withSign value ((2 ^ precision single - 1) *
        2 ^ ((maxExponent single).toInt - (precision single - 1))))
    else out.result = if value.sign ^^ value.negateFinal then negInf else posInf
  ox : out.ox = true ↔ Overflows value single rn
  fr : out.fr = true ↔ value.magnitude.toNat < roundedTo value single rn * 2 ^ dropped single
  fi : out.fi = true ↔ Overflows value single rn ∨
    roundedTo value single rn * 2 ^ dropped single ≠ value.magnitude.toNat

theorem Normalized.overflows_iff {r : Rounded} (h : Normalized r single (number value single rn)) :
    r.overflow = true ↔ Overflows value single rn := by
  have hp : (2 : ℚ) ^ precision single = 2 ^ (precision single : ℤ) := (zpow_natCast 2 _).symm
  have hz : (0 : ℚ) < 2 ^ (r.exponent - (precision single - 1)) := zpow_pos two_pos _
  have hmin : (minExponent single).toInt < (maxExponent single).toInt := by cases single <;> decide
  rw [h.overflow, decide_eq_true_eq, Overflows, ← h.value]
  constructor
  · intro hlt
    have hlead : (2 : ℚ) ^ (precision single - 1) ≤ r.significand := by
      exact_mod_cast h.lead (hmin.trans hlt)
    refine le_trans (zpow_le_zpow_right₀ one_le_two (Int.add_one_le_iff.2 hlt)) ?_
    refine le_trans (le_of_eq ?_) (mul_le_mul_of_nonneg_right hlead hz.le)
    rw [← zpow_natCast, ← zpow_add₀ two_ne_zero]
    cases single <;> simp [precision]
  · intro hle
    by_contra hno
    have hlt : (r.significand : ℚ) < 2 ^ precision single := by exact_mod_cast h.lt
    refine absurd (lt_of_le_of_lt hle (mul_lt_mul_of_pos_right hlt hz)) (not_lt.2 ?_)
    rw [hp, ← zpow_add₀ two_ne_zero]
    exact zpow_le_zpow_right₀ one_le_two (by omega)

theorem standsFor_pack {sign : Bool} {E : BitVec 11} {F : BitVec 52} {n : ℕ} {x : ℚ}
    (hE : E ≠ BitVec.allOnes 11) (hn : (if E = 0 then F.toNat else 2 ^ 52 + F.toNat) = n)
    (hx : (n : ℚ) * 2 ^ (((if E = 0 then 1 else E.toNat : ℕ) : ℤ) - 1075) = x) :
    StandsFor (BitVec.ofBool sign ++ E ++ F) ((if sign then -1 else 1) * x) := by
  refine ⟨?_, ?_⟩
  · rw [Binary.Finite, ← Binary.pack, Binary.biased_pack]
    exact hE
  · rw [← Binary.pack, Binary.value_pack, hn, mul_assoc, ← hx]
    congr 3
    norm_num
    ring

/-- **The word of a normalized number.** -/
theorem finish_finite {post : RoundPost} {r : Rounded} {x : ℚ} (h : Agrees post r single)
    (hr : Normalized r single x) (hover : post.overflow = false) (cpu602 : Bool)
    (tag : CompletionTag) (op : Op) : StandsFor (finishRounded cpu602 post tag op single rn false false).result
      ((if post.sign ^^ post.negateFinal then -1 else 1) * x) := by
  have hle : r.exponent ≤ (maxExponent single).toInt := by
    have := hr.overflow
    rw [← h.overflow, hover] at this
    simpa using this
  have hleast := hr.least
  have hmin : (minExponent single).toInt = if single then -126 else -1022 := by cases single <;> rfl
  have hmax : (maxExponent single).toInt = if single then 127 else 1023 := by cases single <;> rfl
  have hwide : post.wide.toNat % 2 ^ 52 = (post.wide.extractLsb' 0 52).toNat := by
    rw [BitVec.extractLsb'_toNat, Nat.shiftRight_zero]
  have hpack {E : BitVec 11} {F : BitVec 52} {n : ℕ} := @standsFor_pack
    (post.sign ^^ post.negateFinal) E F n x
  unfold finishRounded
  simp only [hover, Bool.false_and, Bool.false_eq_true, if_false, Bool.or_false, Bool.not_eq_true']
  by_cases hnz : post.nonzero = false
  · have hzero : r.significand = 0 := by simpa [hnz] using h.nonzero
    rw [if_pos hnz]
    exact hpack (n := 0) (by decide) rfl (by rw [← hr.value, hzero]; simp)
  rw [if_neg hnz]
  have hnz' : post.nonzero = true := by simpa using hnz
  by_cases hden : (post.exponentIsMin && !post.lead && post.nonzero) = true
  · -- a denormal number
    rw [if_pos hden]
    simp only [Bool.and_eq_true, Bool.not_eq_true'] at hden
    have hx : r.exponent = (minExponent single).toInt := by
      simpa [hden.1.1] using h.exponentIsMin
    have hsmall : r.significand < 2 ^ (precision single - 1) := by
      simpa [hden.1.2] using h.lead
    cases single with
    | true =>
      obtain ⟨hb, hn, hge⟩ := h.denormal rfl hden.1.1 hden.1.2 hnz'
      have hlt := post.singleNormalizedWide.isLt
      have hlow : (post.singleNormalizedWide.extractLsb' 0 52).toNat + 2 ^ 52 =
          post.singleNormalizedWide.toNat := by
        rw [BitVec.extractLsb'_toNat, Nat.shiftRight_zero]
        omega
      have hbig : 926 - post.singleDenormBiasedExp.toNat < 53 := by
        have hone : 1 ≤ r.significand := by
          rcases Nat.eq_zero_or_pos r.significand with h0 | h0
          · rw [h0] at hn
            omega
          · exact h0
        rw [← Nat.pow_lt_pow_iff_right (by decide : 1 < 2)]
        refine Nat.lt_of_le_of_lt ?_ hlt
        rw [hn]
        exact Nat.le_mul_of_pos_left _ hone
      have hne : post.singleDenormBiasedExp ≠ 0 := by
        intro hz
        rw [hz] at hbig
        exact absurd hbig (by decide)
      refine hpack (n := post.singleNormalizedWide.toNat) ?_ ?_ ?_
      · intro hones
        rw [hones] at hb
        exact absurd hb (by decide)
      · rw [if_neg hne]
        omega
      · rw [if_neg hne, ← hr.value, hn, hx]
        push_cast
        rw [mul_assoc, ← zpow_natCast, ← zpow_add₀ two_ne_zero]
        congr 2
        push_cast [hb]
        simp [hmin, precision]
    | false =>
      have hw : post.wide.toNat = r.significand := by simpa [precision] using h.wide
      have hsmall' : r.significand < 2 ^ 52 := hsmall
      refine hpack (n := r.significand) (by decide) ?_ ?_
      · rw [if_pos rfl, ← hwide, hw, Nat.mod_eq_of_lt hsmall']
      · rw [if_pos rfl, ← hr.value, hx]
        simp [hmin, precision]
  · rw [if_neg hden]
    have hlead : 2 ^ (precision single - 1) ≤ r.significand := by
      by_contra hno
      have hl : post.lead = false := by rw [h.lead, decide_eq_false hno]
      have hx : ¬ r.exponent = (minExponent single).toInt := by
        intro hx
        rw [h.exponentIsMin, hx, hl, hnz'] at hden
        simp at hden
      exact hno (hr.lead (by omega))
    have hb : (post.biasedExponent.toNat : ℤ) = r.exponent + 1023 := by
      rw [h.biasedExponent]
      apply Int.emod_eq_of_lt <;> rw [hmin] at hleast <;> rw [hmax] at hle <;>
        split_ifs at hleast hle <;> omega
    have hne : post.biasedExponent ≠ 0 := by
      intro hz
      have hzero : (post.biasedExponent.toNat : ℤ) = 0 := by rw [hz]; rfl
      rw [hmin] at hleast
      split_ifs at hleast <;> omega
    have hwlt := post.wide.isLt
    have hge : 2 ^ 52 ≤ post.wide.toNat := by
      rw [h.wide]
      have hmul := Nat.mul_le_mul_right (2 ^ (53 - precision single)) hlead
      cases single <;> exact hmul
    refine hpack (n := post.wide.toNat) ?_ ?_ ?_
    · intro hones
      rw [hones] at hb
      have hall : ((BitVec.allOnes 11).toNat : ℤ) = 2047 := rfl
      rw [hall] at hb
      rw [hmax] at hle
      split_ifs at hle <;> omega
    · rw [if_neg hne, ← hwide]
      omega
    · rw [if_neg hne, ← hr.value, h.wide, hb]
      push_cast
      rw [mul_assoc, ← zpow_natCast, ← zpow_add₀ two_ne_zero]
      congr 2
      cases single <;> simp [precision] <;> ring

/-- What passes the rounding by. -/
theorem roundMantissa_rest {pre : RoundPre} (hz : pre.zero = false) (single ue : Bool) :
    let post := roundMantissa pre single false ue
    post.sign = pre.sign ∧ post.negateFinal = pre.negateFinal ∧ post.fr = pre.increment ∧
      post.fi = (pre.inexact || post.overflow) := by
  have hz' : ¬ pre.zero = true := by simp [hz]
  unfold roundMantissa
  rw [if_neg hz']
  cases single <;> simp [singleFields, doubleFields]

/-- The modes that deliver an infinity are those that do not round down. -/
theorem deliverInf_iff (sign : Bool) : (rn = 0b00 ∨ rn = 0b10 ∧ sign = false ∨
    rn = 0b11 ∧ sign = true) ↔ direction rn sign ≠ .down := by
  revert rn sign
  decide

/-- **The answer is the number rounded to its format**, and the flags tell of the rounding. -/
theorem finishRounded_correct (hs : Settled value single)
    (hE : (minExponent single).toInt ≤ value.exponent.toInt) (cpu602 ue : Bool)
    (tag : CompletionTag) (op : Op) : Returns value single rn (finishRounded cpu602
      (roundMantissa (prepareRoundMantissa value single rn) single false ue) tag op single rn
        false false) := by
  have hagrees := agrees hs rn ue
  dsimp only at hagrees
  have hnormal := rounded_normalized hs hE rn
  have hover := hnormal.overflows_iff
  rw [← hagrees.overflow] at hover
  obtain ⟨hkept, hsum, hinexact⟩ := prepared hs rn
  have hz := (@prepareRoundMantissa_rest value single rn hs.ne_zero).1
  obtain ⟨hsign, hneg, hfr, hfi⟩ := roundMantissa_rest hz single ue
  have hpre : (prepareRoundMantissa value single rn).sign = value.sign ∧
      (prepareRoundMantissa value single rn).negateFinal = value.negateFinal := by
    unfold prepareRoundMantissa
    split_ifs <;> exact ⟨rfl, rfl⟩
  rw [hpre.1] at hsign
  rw [hpre.2] at hneg
  have hox := hagrees.ox.trans hagrees.overflow.symm
  generalize roundMantissa (prepareRoundMantissa value single rn) single false ue = post at *
  have hflags : let out := finishRounded cpu602 post tag op single rn false false
      out.ox = post.ox ∧ out.fr = post.fr ∧ out.fi = post.fi := by
    dsimp only [finishRounded]
    refine ⟨?_, ?_, ?_⟩ <;> split_ifs <;> rfl
  have hm := Nat.div_add_mod value.magnitude.toNat (2 ^ dropped single)
  have hpos := Nat.two_pow_pos (dropped single)
  have hlt := Nat.mod_lt value.magnitude.toNat hpos
  refine ⟨fun hno => ?_, fun hyes => ?_, ?_, ?_, ?_⟩
  · have h := @finish_finite single rn _ _ _ hagrees hnormal
      (Bool.eq_false_iff.2 (mt hover.1 hno)) cpu602 tag op
    rw [hsign, hneg] at h
    exact h
  · unfold finishRounded
    simp only [hover.2 hyes, hsign, hneg, Bool.not_false, Bool.and_self, if_true, Bool.or_eq_true,
      Bool.and_eq_true, Bool.not_eq_true', decide_eq_true_eq, or_assoc, deliverInf_iff]
    by_cases hd : direction rn value.sign = .down
    · rw [if_pos hd, if_neg (not_not.2 hd)]
      cases single with
      | true =>
        refine standsFor_pack (n := (2 ^ 24 - 1) * 2 ^ 29) (by decide) rfl ?_
        show (((2 ^ 24 - 1) * 2 ^ 29 : ℕ) : ℚ) * 2 ^ (75 : ℤ) = (2 ^ 24 - 1) * 2 ^ (104 : ℤ)
        norm_num
      | false =>
        refine standsFor_pack (n := 2 ^ 53 - 1) (by decide) rfl ?_
        show ((2 ^ 53 - 1 : ℕ) : ℚ) * 2 ^ (971 : ℤ) = (2 ^ 53 - 1) * 2 ^ (971 : ℤ)
        norm_num
    · rw [if_neg hd, if_pos hd]
  · rw [hflags.1, hox, hover]
  · rw [hflags.2.1, hfr, roundedTo, ← hsum, hkept, Nat.add_mul, Nat.mul_comm (_ / _)]
    cases (prepareRoundMantissa value single rn).increment <;> simp <;> omega
  · rw [hflags.2.2, hfi, Bool.or_eq_true, hover, or_comm, hinexact, decide_eq_true_eq]
    refine or_congr_right (not_congr ⟨fun hr => ?_, fun hr => ?_⟩)
    · have hround : roundedTo value single rn = value.magnitude.toNat / 2 ^ dropped single := by
        unfold roundedTo
        cases direction rn value.sign <;> simp [Direction.round, hr]
      rw [hround, Nat.mul_comm]
      omega
    · rw [← hr, Nat.mul_mod_left]

/-- The largest denormal and a bit more, rounded to the smallest normal number. -/
theorem finishRounded_correct_largestDenormal : Returns largestDenormal true 0b00
    (finishRounded false (roundMantissa (prepareRoundMantissa largestDenormal true 0b00) true false
      false) default .frsp true 0b00 false false) :=
  finishRounded_correct ⟨by decide, by decide, fun _ => ⟨rfl, fun _ _ => ⟨by decide, by decide⟩⟩⟩
    (by decide) false false default .frsp

end Result

end Fpu
end SloPPC603
