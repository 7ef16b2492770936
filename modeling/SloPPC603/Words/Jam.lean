import Mathlib.Data.Nat.Bitwise
import Mathlib.Tactic.Linarith
import Mathlib.Tactic.Ring
import SloPPC603.Words.Shifts

/-!
# Shifts that jam, and counts by halving

A right shift that keeps a record of what it loses or-s it into the lowest bit, and shifts
in stages lose no record.  A leading-zero counter shifts a word left in stages, each time
its top half of what is left is zero.

* `jam`, `jam_jam` — the shift, and two of them.
* `Leads`, `leads_unique` — the shift that brings a number's first bit to the top.
* `Leads.widen`, `Leads.append` — with room above, and with bits below.
* `leads_clz` — the count of leading zeros is that shift.
* `runOfOnes_iff`, `Leads.succ` — a number that one more makes a power of two, and any other.
-/

namespace SloPPC603
namespace Words

/-! ## Jamming -/

/-- A number shifted right by `d`, its lowest bit set as well when a lost bit was. -/
def jam (d x : ℕ) : ℕ := x / 2 ^ d ||| if x % 2 ^ d = 0 then 0 else 1

@[simp] theorem jam_zero (x : ℕ) : jam 0 x = x := by
  simp [jam, Nat.mod_one]

theorem or_one_div (y : ℕ) : (y ||| 1) / 2 = y / 2 := by
  rw [← pow_one 2, Nat.or_div_two_pow]
  exact Nat.or_zero _

theorem or_one_mod (y : ℕ) : (y ||| 1) % 2 = 1 := by
  rw [Nat.or_mod_two_eq_one]
  exact .inr rfl

/-- **Two shifts lose no more than one.** -/
theorem jam_jam (a b x : ℕ) : jam a (jam b x) = jam (b + a) x := by
  cases a with
  | zero => simp
  | succ a =>
    have hpow : 2 ^ (a + 1) = 2 * 2 ^ a := by ring
    have hdiv : x / 2 ^ (b + (a + 1)) = x / 2 ^ b / 2 ^ (a + 1) := by
      rw [Nat.div_div_eq_div_mul, ← pow_add]
    have hmod : x % 2 ^ (b + (a + 1)) = x % 2 ^ b + 2 ^ b * (x / 2 ^ b % 2 ^ (a + 1)) := by
      rw [pow_add, Nat.mod_mul]
    have hpos : 0 < 2 ^ b := Nat.two_pow_pos b
    by_cases hz : x % 2 ^ b = 0
    · have hb : jam b x = x / 2 ^ b := by rw [jam, if_pos hz, Nat.or_zero]
      rw [hb, jam, jam, hdiv, hmod, hz, Nat.zero_add]
      congr 2
      rw [Nat.mul_eq_zero]
      simp
    · -- the sticky bit is lost with the lowest bit of what is kept
      have hb : jam b x = x / 2 ^ b ||| 1 := by rw [jam, if_neg hz]
      have hkeep : (x / 2 ^ b ||| 1) / 2 ^ (a + 1) = x / 2 ^ b / 2 ^ (a + 1) := by
        rw [hpow, ← Nat.div_div_eq_div_mul, or_one_div, Nat.div_div_eq_div_mul]
      have hlost : (x / 2 ^ b ||| 1) % 2 ^ (a + 1) ≠ 0 := by
        intro h
        have hdvd : (x / 2 ^ b ||| 1) % 2 ^ (a + 1) % 2 = (x / 2 ^ b ||| 1) % 2 := by
          rw [hpow]
          exact Nat.mod_mul_right_mod _ _ _
        rw [h, or_one_mod] at hdvd
        cases hdvd
      rw [hb, jam, jam, hdiv, hmod, hkeep, if_neg hlost, if_neg (by omega)]

theorem jam_of_lt {d x : ℕ} (h : x < 2 ^ d) : jam d x = if x = 0 then 0 else 1 := by
  rw [jam, Nat.div_eq_of_lt h, Nat.mod_eq_of_lt h, Nat.zero_or]

/-! ## Leading zeros -/

/-- A shift by `n` brings the first bit of `x` to the top of a word of `w` bits. -/
def Leads (w n x : ℕ) : Prop := 2 ^ w ≤ 2 * (x * 2 ^ n) ∧ x * 2 ^ n < 2 ^ w

theorem leads_unique {w m n x : ℕ} (hm : Leads w m x) (hn : Leads w n x) : m = n := by
  have hle : ∀ {k l : ℕ}, Leads w k x → Leads w l x → l ≤ k := by
    intro k l hk hl
    by_contra hlt
    obtain ⟨e, rfl⟩ := Nat.exists_eq_add_of_lt (Nat.lt_of_not_le hlt)
    have hpow : x * 2 ^ (k + e + 1) = 2 * (x * 2 ^ k) * 2 ^ e := by ring
    have hge : 2 * (x * 2 ^ k) ≤ 2 * (x * 2 ^ k) * 2 ^ e :=
      Nat.le_mul_of_pos_right _ (Nat.two_pow_pos e)
    have h1 := hk.1
    have h2 := hl.2
    omega
  exact Nat.le_antisymm (hle hn hm) (hle hm hn)

theorem Leads.pos {w n x : ℕ} (h : Leads w n x) : 0 < x := by
  rcases Nat.eq_zero_or_pos x with rfl | hx
  · have h1 := h.1
    have hpow := Nat.two_pow_pos w
    simp at h1
  · exact hx

theorem Leads.le {w n x : ℕ} (h : Leads w n x) : n ≤ w := by
  have hle : 2 ^ n ≤ x * 2 ^ n := Nat.le_mul_of_pos_left _ h.pos
  exact Nat.le_of_lt ((Nat.pow_lt_pow_iff_right (by decide)).1 (Nat.lt_of_le_of_lt hle h.2))

/-- More room above takes as much more shift. -/
theorem Leads.widen {w n x : ℕ} (h : Leads w n x) (e : ℕ) : Leads (w + e) (n + e) x := by
  have hx : x * 2 ^ (n + e) = x * 2 ^ n * 2 ^ e := by ring
  refine ⟨?_, ?_⟩
  · calc 2 ^ (w + e) = 2 ^ w * 2 ^ e := pow_add _ _ _
      _ ≤ 2 * (x * 2 ^ n) * 2 ^ e := Nat.mul_le_mul_right _ h.1
      _ = 2 * (x * 2 ^ (n + e)) := by rw [hx]; ring
  · rw [hx, pow_add]
    exact Nat.mul_lt_mul_of_pos_right h.2 (Nat.two_pow_pos e)

/-- Bits below do not matter. -/
theorem Leads.append {w n x l low : ℕ} (h : Leads w n x) (hlow : low < 2 ^ l) :
    Leads (w + l) n (x * 2 ^ l + low) := by
  have hw : 2 ^ w = 2 ^ (w - n) * 2 ^ n := by rw [← pow_add, Nat.sub_add_cancel h.le]
  have hx : x + 1 ≤ 2 ^ (w - n) := by
    have hlt := h.2
    rw [hw] at hlt
    exact Nat.lt_of_mul_lt_mul_right hlt
  refine ⟨?_, ?_⟩
  · calc 2 ^ (w + l) = 2 ^ w * 2 ^ l := pow_add _ _ _
      _ ≤ 2 * (x * 2 ^ n) * 2 ^ l := Nat.mul_le_mul_right _ h.1
      _ = 2 * (x * 2 ^ l * 2 ^ n) := by ring
      _ ≤ 2 * ((x * 2 ^ l + low) * 2 ^ n) :=
          Nat.mul_le_mul_left _ (Nat.mul_le_mul_right _ (Nat.le_add_right _ _))
  · calc (x * 2 ^ l + low) * 2 ^ n < (x * 2 ^ l + 2 ^ l) * 2 ^ n :=
          Nat.mul_lt_mul_of_pos_right (Nat.add_lt_add_left hlow _) (Nat.two_pow_pos n)
      _ = (x + 1) * (2 ^ l * 2 ^ n) := by ring
      _ ≤ 2 ^ (w - n) * (2 ^ l * 2 ^ n) := Nat.mul_le_mul_right _ hx
      _ = 2 ^ (w + l) := by rw [pow_add, hw]; ring

/-- **The leading zeros of a word that is not zero.** -/
theorem leads_clz {w : ℕ} {x : BitVec w} (hx : x ≠ 0) : Leads w x.clz.toNat x.toNat := by
  have hw : 0 < w := by
    rcases Nat.eq_zero_or_pos w with rfl | h
    · exact absurd (Subsingleton.elim x 0) hx
    · exact h
  have hle : x.clz.toNat < w := by
    have h := BitVec.clz_lt_iff_ne_zero.2 hx
    rw [BitVec.lt_def, BitVec.natCast_eq_ofNat, BitVec.toNat_ofNat,
      Nat.mod_eq_of_lt Nat.lt_two_pow_self] at h
    exact h
  have hlow := BitVec.two_pow_sub_clz_le_toNat_of_ne_zero hw hx
  have hhigh : x.toNat < 2 ^ (w - x.clz.toNat) := BitVec.toNat_lt_two_pow_sub_clz
  generalize x.clz.toNat = n at hle hlow hhigh
  have hsplit : 2 ^ w = 2 ^ (w - n) * 2 ^ n := by rw [← pow_add, Nat.sub_add_cancel (by omega)]
  have hdouble : 2 ^ (w - n) = 2 * 2 ^ (w - 1 - n) := by
    rw [← pow_succ', show w - 1 - n + 1 = w - n by omega]
  refine ⟨?_, ?_⟩
  · rw [hsplit, hdouble, Nat.mul_assoc]
    exact Nat.mul_le_mul_left 2 (Nat.mul_le_mul_right _ hlow)
  · rw [hsplit]
    exact Nat.mul_lt_mul_of_pos_right hhigh (Nat.two_pow_pos n)

/-! ## Powers of two -/

/-- **A run of ones from the lowest bit** is what an increment makes a power of two. -/
theorem runOfOnes_iff {w : ℕ} (kept : BitVec (w + 1)) :
    ~~~kept.extractLsb' 1 w ||| kept.extractLsb' 0 w = BitVec.allOnes w ↔
      ∃ k ≤ w + 1, kept.toNat + 1 = 2 ^ k := by
  have hbit : ∀ j < w, (~~~kept.extractLsb' 1 w ||| kept.extractLsb' 0 w).getLsbD j =
      (!kept.getLsbD (j + 1) || kept.getLsbD j) := by
    intro j hj
    rw [BitVec.getLsbD_or, BitVec.getLsbD_not, BitVec.getLsbD_extractLsb',
      BitVec.getLsbD_extractLsb', decide_eq_true hj, Bool.true_and, Bool.true_and, Bool.true_and,
      Nat.add_comm 1 j, Nat.zero_add]
  have hbits : ~~~kept.extractLsb' 1 w ||| kept.extractLsb' 0 w = BitVec.allOnes w ↔
      ∀ j < w, kept.getLsbD (j + 1) = true → kept.getLsbD j = true := by
    constructor
    · intro h j hj hset
      have hone := hbit j hj
      rw [h, getLsbD_allOnes, decide_eq_true hj, hset] at hone
      exact hone.symm
    · intro h
      refine BitVec.eq_of_getLsbD_eq fun j hj => ?_
      have hstep := h j hj
      rw [hbit j hj, getLsbD_allOnes, decide_eq_true hj]
      cases hset : kept.getLsbD (j + 1) with
      | false => rfl
      | true => exact hstep hset
  rw [hbits]
  constructor
  · intro h
    -- the first bit that is not set, or the end
    have hex : ∃ k, kept.getLsbD k = false := ⟨w + 1, BitVec.getLsbD_of_ge _ _ le_rfl⟩
    have habove : ∀ j, Nat.find hex ≤ j → kept.getLsbD j = false := by
      intro j hj
      induction j, hj using Nat.le_induction with
      | base => exact Nat.find_spec hex
      | succ j hj ih =>
        by_contra hset
        by_cases hjw : j < w
        · have hlow := h j hjw (by simpa using hset)
          rw [ih] at hlow
          cases hlow
        · exact hset (BitVec.getLsbD_of_ge _ _ (by omega))
    have hle : Nat.find hex ≤ w + 1 := Nat.find_min' hex (BitVec.getLsbD_of_ge _ _ le_rfl)
    refine ⟨Nat.find hex, hle, ?_⟩
    have hval : kept.toNat = 2 ^ Nat.find hex - 1 := by
      refine Nat.eq_of_testBit_eq fun j => ?_
      rw [Nat.testBit_two_pow_sub_one]
      by_cases hj : j < Nat.find hex
      · have hset := Nat.find_min hex hj
        rw [decide_eq_true hj]
        simpa [BitVec.getLsbD] using hset
      · rw [decide_eq_false hj]
        exact habove j (by omega)
    have hpos := Nat.two_pow_pos (Nat.find hex)
    omega
  · rintro ⟨k, -, hk⟩ j _ hset
    have hval : kept.toNat = 2 ^ k - 1 := by omega
    rw [BitVec.getLsbD, hval, Nat.testBit_two_pow_sub_one, decide_eq_true_eq] at hset ⊢
    omega

/-- The leading zeros of a run of ones. -/
theorem leads_pred_two_pow {w n k x : ℕ} (h : Leads w n x) (hx : x + 1 = 2 ^ k) : n + k = w := by
  have hk : 0 < k := by
    rcases Nat.eq_zero_or_pos k with rfl | hk
    · have := h.pos
      simp at hx
      omega
    · exact hk
  have hdouble : 2 ^ k = 2 * 2 ^ (k - 1) := by rw [← pow_succ', Nat.sub_add_cancel hk]
  have hpos := Nat.two_pow_pos (k - 1)
  have hlead : Leads k 0 x := ⟨by omega, by omega⟩
  by_cases hkw : k ≤ w
  · have hwide := hlead.widen (w - k)
    rw [Nat.add_sub_cancel' hkw, Nat.zero_add] at hwide
    have := leads_unique h hwide
    omega
  · have hwide := h.widen (k - w)
    rw [Nat.add_sub_cancel' (by omega)] at hwide
    have := leads_unique hlead hwide
    omega

/-- A significand that an increment makes no power of two keeps its leading zeros. -/
theorem Leads.succ {w n x : ℕ} (h : Leads w n x) (hx : ∀ k ≤ w, x + 1 ≠ 2 ^ k) : Leads w n (x + 1) := by
  have hw : 2 ^ w = 2 ^ (w - n) * 2 ^ n := by rw [← pow_add, Nat.sub_add_cancel h.le]
  have hlt : x < 2 ^ (w - n) := by
    have hlt := h.2
    rw [hw] at hlt
    exact Nat.lt_of_mul_lt_mul_right hlt
  have hne := hx (w - n) (Nat.sub_le w n)
  refine ⟨?_, ?_⟩
  · have := h.1
    nlinarith [Nat.two_pow_pos n]
  · rw [hw]
    exact Nat.mul_lt_mul_of_pos_right (by omega) (Nat.two_pow_pos n)

end Words
end SloPPC603
