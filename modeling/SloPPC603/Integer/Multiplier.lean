import SloPPC603.Integer.Unit
import SloPPC603.Words.SignedDigit

/-!
# The multiplier

The multiplier of `ppc_iu.sv` over a whole multiplication.  Before each step the accumulator
holds the product of the left operand and the signed value of the bits of the right operand
read so far; the loop ends at the first step after which the bits left are copies of the sign.

* `Multiplying`, `multiplying_step` — the state after some of the steps.
* `multiplyLast_iff` — when the loop ends.
* `product` — the half of the exact product that an operation returns.
* `multiply_exact` — what every multiplication left to run returns, and when.
-/

namespace SloPPC603
namespace Iu

open Clocked Words

/-! ## Words of given values -/

section Values

variable {n m : ℕ} {x y : ℤ}

theorem ofInt_two_pow : BitVec.twoPow n m = BitVec.ofInt n (2 ^ m) := by
  apply BitVec.eq_of_toNat_eq
  rw [BitVec.toNat_twoPow, BitVec.toNat_ofInt]
  norm_cast

theorem ofInt_shiftLeft : BitVec.ofInt n x <<< m = BitVec.ofInt n (x * 2 ^ m) := by
  rw [BitVec.shiftLeft_eq_mul_twoPow, ofInt_two_pow, BitVec.ofInt_mul]

/-- A bit put above a word, as its sign or as nothing. -/
theorem toInt_extended (signed : Bool) (b : BitVec 32) :
    (BitVec.ofBool (signed && b.getLsbD 31) ++ b).toInt =
      if signed then b.toInt else (b.toNat : ℤ) := by
  have hlt := b.isLt
  have hsign := Divider.sign_bit b
  rw [BitVec.toInt_eq_toNat_cond, Divider.toNat_append_two]
  cases signed with
  | false =>
    simp only [Bool.false_and, BitVec.ofBool_false, Bool.false_eq_true, if_false]
    rw [if_pos (by simp; omega)]
    simp
  | true =>
    rw [Bool.true_and, if_pos rfl, hsign, BitVec.toInt_eq_toNat_cond]
    by_cases hb : 2 * b.toNat < 2 ^ 32
    · rw [if_pos hb, decide_eq_false (by omega)]
      simp
      omega
    · rw [if_neg hb, decide_eq_true (by omega)]
      simp
      omega

end Values

/-! ## The stages of the loop -/

/-- The bits of the right operand read once stage `k` is done. -/
def stop (cfg : Config) (k : ℕ) : ℕ := if cfg.mul602Timing = true ∧ k = 0 then 16 else 8 * (k + 1)

/-- The stage after stage `k`: the 602's first step covers two bytes. -/
def next (cfg : Config) (k : ℕ) : ℕ := if cfg.mul602Timing = true ∧ k = 0 then 2 else k + 1

/-- The state before stage `k` of the multiplication of `a` by `b`. -/
structure Multiplying {cfg : Config} (a b : ℤ) (k : ℕ) (s : State cfg) : Prop where
  stage : k < 5
  left : (multiplyA s).toInt = a
  right : (multiplyB s).toInt = b
  step : s.multiplyStep = 1#5 <<< k
  digit : low b (stop cfg k) = low b (8 * k) + 2 ^ (8 * k) * s.multiplyDigit.toInt
  acc : s.multiplyAcc = BitVec.ofInt 64 (a * low b (8 * k))

section Stage

variable {cfg : Config} {s : State cfg} {i : Input} {a b : ℤ} {k : ℕ}

theorem stop_next (k : ℕ) : 8 * next cfg k = stop cfg k := by
  rw [next, stop]
  split_ifs <;> omega

theorem multiplyPartialExt_eq : multiplyPartialExt s =
    BitVec.ofInt 64 ((multiplyA s).toInt * s.multiplyDigit.toInt) := by
  obtain ⟨hwidth, -⟩ := cfg.digitWidth_bounds
  rw [multiplyPartialExt, BitVec.signExtend, multiplyPartial,
    toInt_signExtend_mul (by omega) (by omega) (by omega)]

/-- The partial product of stage `k`, at its place. -/
theorem multiplyAddend_eq (h : Multiplying a b k s) :
    multiplyAddend s = BitVec.ofInt 64 (a * s.multiplyDigit.toInt * 2 ^ (8 * k)) := by
  have hk := h.stage
  have hstep := h.step
  have hpartial := multiplyPartialExt_eq (s := s)
  rw [h.left] at hpartial
  rw [multiplyAddend, hpartial, hstep]
  have hcases : k = 0 ∨ k = 1 ∨ k = 2 ∨ k = 3 ∨ k = 4 := by omega
  rcases hcases with rfl | rfl | rfl | rfl | rfl
  · simp
  · exact ofInt_shiftLeft
  · exact ofInt_shiftLeft
  · exact ofInt_shiftLeft
  · exact ofInt_shiftLeft

/-- **A step adds the partial product of its digit.** -/
theorem acc_step (h : Multiplying a b k s) : s.multiplyAcc + multiplyAddend s =
    BitVec.ofInt 64 (a * low b (stop cfg k)) := by
  rw [h.acc, multiplyAddend_eq h, ← BitVec.ofInt_add, h.digit]
  congr 1
  ring

/-! ### The next digit -/

/-- A byte of the right operand with the bit below it. -/
theorem toInt_signedByte (lo : ℕ) (hlo : 0 < lo) (hhi : lo + 8 ≤ 33) :
    (signedByte s lo).toInt =
      low ((multiplyB s).toInt / 2 ^ lo) 8 + topBit (multiplyB s).toInt lo := by
  obtain ⟨p, rfl⟩ := Nat.exists_eq_add_of_le' hlo
  rw [signedByte, BitVec.toInt_add, BitVec.toInt_signExtend_of_le (by omega),
    toInt_extractLsb' _ hhi, Nat.add_sub_cancel, topBit_toInt _ (by omega)]
  generalize (multiplyB s).toInt / 2 ^ (p + 1) = d
  have hle := Int.le_bmod (x := d) (m := 2 ^ 8) (by omega)
  have hlt := Int.bmod_lt (x := d) (m := 2 ^ 8) (by omega)
  rw [low]
  cases (multiplyB s).getLsbD p with
  | false =>
    refine Int.bmod_eq_of_le ?_ ?_ <;> simp at * <;> omega
  | true =>
    refine Int.bmod_eq_of_le ?_ ?_ <;> simp at * <;> omega

/-- The sign alone, with the bit below it. -/
theorem toInt_signDigit : ((BitVec.ofBool ((multiplyB s).getLsbD 32)).signExtend 9 +
    (BitVec.ofBool ((multiplyB s).getLsbD 31)).setWidth 9).toInt =
      low ((multiplyB s).toInt / 2 ^ 32) 8 + topBit (multiplyB s).toInt 32 := by
  have htop := toInt_extractLsb'_top (multiplyB s) (p := 32) (by omega)
  have hbit : (multiplyB s).extractLsb' 32 (33 - 32) =
      BitVec.ofBool ((multiplyB s).getLsbD 32) := by
    apply BitVec.eq_of_getLsbD_eq
    intro j hj
    have hj0 : j = 0 := by omega
    subst hj0
    simp
  rw [← htop, hbit, topBit_toInt _ (by omega)]
  cases (multiplyB s).getLsbD 32 <;> cases (multiplyB s).getLsbD 31 <;> decide

/-- **The next digit continues the value read.** -/
theorem toInt_nextDigit (h : Multiplying a b k s) (hk : k < 4) :
    (multiplyNextDigit s).toInt = low (b / 2 ^ stop cfg k) 8 + topBit b (stop cfg k) := by
  obtain ⟨hwidth, -⟩ := cfg.digitWidth_bounds
  rw [multiplyNextDigit, BitVec.toInt_signExtend_of_le hwidth, multiplyNextByte, h.step, ← h.right]
  have hcases : k = 0 ∨ k = 1 ∨ k = 2 ∨ k = 3 := by omega
  rcases hcases with rfl | rfl | rfl | rfl
  · cases h602 : cfg.mul602Timing with
    | false => simpa [stop, h602] using toInt_signedByte (s := s) 8 (by omega) (by omega)
    | true => simpa [stop, h602] using toInt_signedByte (s := s) 16 (by omega) (by omega)
  · simpa [stop] using toInt_signedByte (s := s) 16 (by omega) (by omega)
  · simpa [stop] using toInt_signedByte (s := s) 24 (by omega) (by omega)
  · simpa [stop] using toInt_signDigit (s := s)

/-! ### The last step -/

/-- Two neighbouring bits that agree. -/
theorem pair_uniform (x : BitVec 33) :
    (x.getLsbD 32 == x.getLsbD 31) = uniform (x.extractLsb' 31 (33 - 31)) := by
  have hbits : x.extractLsb' 31 (33 - 31) =
      BitVec.ofBool (x.getLsbD 32) ++ BitVec.ofBool (x.getLsbD 31) := by
    apply BitVec.eq_of_getLsbD_eq
    intro j hj
    have hcases : j = 0 ∨ j = 1 := by omega
    rcases hcases with rfl | rfl
    · simp only [BitVec.getLsbD_extractLsb', BitVec.getLsbD_append]
      simp
    · simp only [BitVec.getLsbD_extractLsb', BitVec.getLsbD_append]
      simp
  rw [hbits]
  cases x.getLsbD 32 <;> cases x.getLsbD 31 <;> decide

/-- **The loop ends once the bits left are copies of the sign.** -/
theorem multiplyLast_iff (h : Multiplying a b k s) :
    multiplyLast s = true ↔ low b (stop cfg k) = b := by
  have huniform : ∀ lo, lo < 33 → (uniform (multiplyBits s lo) = true ↔
      low (multiplyB s).toInt (lo + 1) = (multiplyB s).toInt) := by
    intro lo hlo
    rw [← uniform_iff (multiplyB s) hlo, uniform, multiplyBits, Bool.or_eq_true, decide_eq_true_eq,
      decide_eq_true_eq]
  have hk := h.stage
  rw [multiplyLast, h.step, ← h.right]
  have hcases : k = 0 ∨ k = 1 ∨ k = 2 ∨ k = 3 ∨ k = 4 := by omega
  rcases hcases with rfl | rfl | rfl | rfl | rfl
  · cases h602 : cfg.mul602Timing with
    | false => simpa [stop, h602] using huniform 7 (by omega)
    | true => simpa [stop, h602] using huniform 15 (by omega)
  · simpa [stop] using huniform 15 (by omega)
  · simpa [stop] using huniform 23 (by omega)
  · have hpair := huniform 31 (by omega)
    rw [multiplyBits, ← pair_uniform] at hpair
    simpa [stop] using hpair
  · have hle := BitVec.le_toInt (multiplyB s)
    have hlt := BitVec.toInt_lt (x := multiplyB s)
    have hwhole : low (multiplyB s).toInt (39 + 1) = (multiplyB s).toInt := by
      rw [low_eq_self_iff]
      omega
    simpa [stop] using hwhole

end Stage

/-! ## Along the loop -/

section Loop

variable {cfg : Config} {s : State cfg} {i : Input} {a b : ℤ} {k : ℕ}

/-- The operands of a multiplication stay. -/
theorem operands_kept (hno : issues s i = false) :
    multiplyA (step s i) = multiplyA s ∧ multiplyB (step s i) = multiplyB s := by
  simp [multiplyA, multiplyB, step_multiplyASign, step_multiplyBSign, step_held, hno]

/-- The datapath of a step of the loop. -/
theorem step_datapath (hactive : s.multiplyActive = true) (hno : issues s i = false) :
    (step s i).multiplyAcc = s.multiplyAcc + multiplyAddend s ∧
      (step s i).multiplyDigit = multiplyNextDigit s ∧
      (step s i).multiplyStep = if cfg.mul602Timing && s.multiplyStep.getLsbD 0 then 0b00100#5
        else s.multiplyStep <<< 1 := by
  simp [step_multiplyAcc, step_multiplyDigit, step_multiplyStep, hactive, hno]

/-- The control of an edge that leaves the operation alone. -/
theorem step_control (hocc : s.occupied = true) (halone : LeftAlone s i) :
    (step s i).multiplyActive = (s.multiplyActive && !multiplyLast s) ∧
      (step s i).multiplyDone = (s.multiplyDone || (s.multiplyActive && multiplyLast s)) := by
  have hno := not_issues hocc halone
  obtain ⟨hrst, hcancel, htaken⟩ := halone
  refine ⟨?_, ?_⟩
  · cases hactive : s.multiplyActive <;> cases hlast : multiplyLast s <;>
      simp [step, occupancy, multiplyControl, hrst, hno, hcancel, htaken, hactive, hlast]
  · cases hactive : s.multiplyActive <;> cases hlast : multiplyLast s <;>
      simp [step, occupancy, multiplyControl, hrst, hno, hcancel, htaken, hactive, hlast]

/-- **A step that is not the last.** -/
theorem multiplying_step (h : Multiplying a b k s) (hactive : s.multiplyActive = true)
    (hno : issues s i = false) (hlast : low b (stop cfg k) ≠ b) :
    Multiplying a b (next cfg k) (step s i) := by
  obtain ⟨hacc, hdigit, hstep⟩ := step_datapath hactive hno
  have hk : k < 4 := by
    by_contra hge
    have hk4 : k = 4 := by
      have hk5 := h.stage
      omega
    subst hk4
    have hdone := (multiplyLast_iff h).1 (by rw [multiplyLast, h.step]; rfl)
    exact hlast hdone
  have hnext : next cfg k < 5 := by
    rw [next]
    split_ifs <;> omega
  have hstop : stop cfg (next cfg k) = stop cfg k + 8 := by
    have hpos : next cfg k ≠ 0 := by
      rw [next]
      split_ifs <;> omega
    rw [← stop_next k, stop, if_neg fun hzero => hpos hzero.2]
    omega
  refine ⟨hnext, ?_, ?_, ?_, ?_, ?_⟩
  · rw [(operands_kept hno).1]
    exact h.left
  · rw [(operands_kept hno).2]
    exact h.right
  · rw [hstep, h.step]
    have hcases : k = 0 ∨ k = 1 ∨ k = 2 ∨ k = 3 := by omega
    rcases hcases with rfl | rfl | rfl | rfl <;> cases h602 : cfg.mul602Timing <;>
      simp [next, h602]
  · rw [hdigit, hstop, stop_next, toInt_nextDigit h hk]
    exact low_digit b (stop cfg k) 8 (by omega)
  · rw [hacc, stop_next]
    exact acc_step h

/-- **The last step leaves the whole product.** -/
theorem acc_last (h : Multiplying a b k s) (hactive : s.multiplyActive = true)
    (hno : issues s i = false) (hlast : low b (stop cfg k) = b) :
    (step s i).multiplyAcc = BitVec.ofInt 64 (a * b) := by
  rw [(step_datapath hactive hno).1, acc_step h, hlast]

theorem acc_kept (hactive : s.multiplyActive = false) (hno : issues s i = false) :
    (step s i).multiplyAcc = s.multiplyAcc := by
  simp [step_multiplyAcc, hactive, hno]

end Loop

/-! ## The start of a multiplication -/

/-- The left and the right factor. -/
def factor (p : IssuePacket) (x : BitVec 32) : ℤ :=
  if p.ctrl.op = .mulhwu then (x.toNat : ℤ) else x.toInt

section Start

variable {cfg : Config} {s : State cfg} {i : Input}

theorem toInt_issueDigit (b : BitVec 32) :
    (issueDigit cfg b).toInt = low b.toInt (stop cfg 0) := by
  obtain ⟨-, hwidth⟩ := cfg.digitWidth_bounds
  rw [issueDigit, BitVec.toInt_signExtend_of_le (by omega), toInt_setWidth _ (by omega)]
  congr 1
  simp only [Config.digitWidth, stop]
  cases cfg.mul602Timing <;> simp

/-- **An issue starts a multiplication of the operands issued.** -/
theorem multiplying_start (hfull : cfg.addCompareOnly = false) (hissues : issues s i = true)
    (hmul : AluOp.isMultiply i.issue.ctrl.op = true) :
    Multiplying (factor i.issue i.issue.a) (factor i.issue i.issue.b) 0 (step s i) ∧
      (step s i).multiplyActive = true ∧
      (step s i).multiplyDone = issueMulliShort cfg i.issue := by
  have hrst := issues_rstN hissues
  have hstart : (issues s i && issueMultiply cfg i) = true := by
    simp [hissues, issueMultiply, hfull, hmul]
  have hvalue : ∀ x : BitVec 32, (BitVec.ofBool (issueMultiplySigned i && x.getLsbD 31) ++ x).toInt =
      factor i.issue x := by
    intro x
    rw [toInt_extended, factor, issueMultiplySigned]
    by_cases hop : i.issue.ctrl.op = .mulhwu <;> simp [hop]
  obtain ⟨hheld, -, -⟩ := accepts_held hissues
  refine ⟨⟨by omega, ?_, ?_, ?_, ?_, ?_⟩, ?_, ?_⟩
  · rw [multiplyA, step_multiplyASign, if_pos hstart, hheld]
    exact hvalue _
  · rw [multiplyB, step_multiplyBSign, if_pos hstart, hheld]
    exact hvalue _
  · rw [step_multiplyStep, if_pos hstart]
    rfl
  · have hwidth : stop cfg 0 ≤ 32 := by
      rw [stop]
      split_ifs <;> omega
    rw [step_multiplyDigit, if_pos hstart, toInt_issueDigit, Nat.mul_zero, low_zero, pow_zero,
      one_mul, zero_add, factor]
    split_ifs
    · obtain ⟨c, hc⟩ := toInt_eq_toNat_add i.issue.b
      exact (low_congr hwidth hc).symm
    · rfl
  · rw [step_multiplyAcc, if_pos hstart, Nat.mul_zero, low_zero, mul_zero]
    rfl
  · simp [step, occupancy, multiplyControl, hrst, hissues, issueMultiply, hfull, hmul]
  · simp [step, occupancy, multiplyControl, hrst, hissues]

end Start

/-! ## The halves of the product -/

/-- What a multiply returns: the low or the high word of the exact product. -/
def product (p : IssuePacket) : BitVec 32 :=
  match p.ctrl.op with
  | .mulhw => BitVec.ofInt 32 (p.a.toInt * p.b.toInt / 2 ^ 32)
  | .mulhwu => BitVec.ofNat 32 (p.a.toNat * p.b.toNat / 2 ^ 32)
  | _ => BitVec.ofInt 32 (p.a.toInt * p.b.toInt)

/-- The signed product does not fit a word. -/
def Overflows (p : IssuePacket) : Prop :=
  p.a.toInt * p.b.toInt < -2 ^ 31 ∨ 2 ^ 31 ≤ p.a.toInt * p.b.toInt

instance (p : IssuePacket) : Decidable (Overflows p) :=
  inferInstanceAs (Decidable (_ ∨ _))

section Halves

variable {cfg : Config} {s : State cfg} {x : ℤ}

theorem low_word : (BitVec.ofInt 64 x).setWidth 32 = BitVec.ofInt 32 x := by
  apply BitVec.eq_of_toNat_eq
  rw [BitVec.toNat_setWidth, BitVec.toNat_ofInt, BitVec.toNat_ofInt]
  omega

theorem high_word : (BitVec.ofInt 64 x).extractLsb' 32 32 = BitVec.ofInt 32 (x / 2 ^ 32) := by
  apply BitVec.eq_of_toNat_eq
  rw [BitVec.extractLsb'_toNat, BitVec.toNat_ofInt, BitVec.toNat_ofInt, Nat.shiftRight_eq_div_pow]
  omega

/-- **The value of a multiplication that is done.** -/
theorem aluValue_multiply (hfull : cfg.addCompareOnly = false)
    (hmul : AluOp.isMultiply s.held.ctrl.op = true)
    (hacc : s.multiplyAcc = BitVec.ofInt 64 (factor s.held s.held.a * factor s.held s.held.b)) :
    (aluValue s).1 = product s.held := by
  simp only [AluOp.isMultiply, Bool.or_eq_true, decide_eq_true_eq] at hmul
  rcases hmul with ((hop | hop) | hop) | hop
  · simp [aluValue, product, factor, hfull, hop, hacc, low_word]
  · simp [aluValue, product, factor, hfull, hop, hacc, low_word]
  · simp only [aluValue, product, factor, hfull, hop, hacc, high_word]
    rfl
  · simp only [aluValue, product, factor, hfull, hop, hacc, high_word]
    rfl

/-- The product of two signed words. -/
theorem product_bounds (a b : BitVec 32) :
    -2 ^ 62 ≤ a.toInt * b.toInt ∧ a.toInt * b.toInt ≤ 2 ^ 62 :=
  ⟨BitVec.le_toInt_mul_toInt, BitVec.toInt_mul_toInt_le⟩

/-- **The high half is not a copy of the sign where the product does not fit.** -/
theorem multiplyOverflow_eq
    (hacc : s.multiplyAcc = BitVec.ofInt 64 (s.held.a.toInt * s.held.b.toInt)) :
    multiplyOverflow s = decide (Overflows s.held) := by
  have hx := product_bounds s.held.a s.held.b
  rw [multiplyOverflow, decide_eq_decide, Overflows]
  generalize s.held.a.toInt * s.held.b.toInt = x at hacc hx
  have hval : s.multiplyAcc.toInt = x := by
    rw [hacc, BitVec.toInt_ofInt]
    exact Int.bmod_eq_of_le (by omega) (by omega)
  have htop := toInt_extractLsb'_top s.multiplyAcc (p := 32) (by omega)
  have hfill : (fill (s.multiplyAcc.getLsbD 31)).toInt = -topBit x 32 := by
    rw [← hval, topBit_toInt _ (by omega)]
    cases s.multiplyAcc.getLsbD 31 <;> decide
  have hlow := low_eq x 32
  have hdiv := Int.mul_ediv_add_emod x (2 ^ 32)
  have hiff : x / 2 ^ 32 = -topBit x 32 ↔ low x (31 + 1) = x := by
    constructor
    · intro h
      rw [hlow]
      rw [h] at hdiv
      omega
    · intro h
      rw [show 31 + 1 = 32 by rfl, hlow] at h
      omega
  rw [ne_eq, ← BitVec.toInt_inj, htop, hfill, hval, hiff, low_eq_self_iff]
  omega

/-! ### A short immediate -/

/-- **The two pieces of a short product add up to it.** -/
theorem shortProduct_eq {p : IssuePacket} (hshort : issueMulliShort cfg p = true)
    (ha : s.held.a = p.a) (hdigit : s.multiplyDigit = issueDigit cfg p.b) :
    shortProduct s = BitVec.ofInt 32 (p.a.toInt * p.b.toInt) := by
  simp only [issueMulliShort, Bool.and_eq_true, decide_eq_true_eq, uniform, Bool.or_eq_true]
    at hshort
  obtain ⟨⟨⟨h602, -⟩, -⟩, hbits⟩ := hshort
  have hlow := (uniform_iff p.b (p := 7) (by omega)).1 hbits
  obtain ⟨hle, hlt⟩ := low_eq_self_iff.1 hlow
  have hlow16 : low p.b.toInt (15 + 1) = p.b.toInt := low_eq_self_iff.2 (by omega)
  have hlow9 : low p.b.toInt (8 + 1) = p.b.toInt := low_eq_self_iff.2 (by omega)
  have hdigit9 : (s.multiplyDigit.setWidth 9).toInt = p.b.toInt := by
    have hstop : stop cfg 0 = 15 + 1 := by simp [stop, h602]
    rw [toInt_setWidth _ cfg.digitWidth_bounds.1, hdigit, toInt_issueDigit, hstop, hlow16]
    exact hlow9
  have hlowPart : shortLowPart s = BitVec.ofInt 28 ((p.a.toNat % 2 ^ 18 : ℕ) * p.b.toInt) := by
    have hword : (p.a.setWidth 18).setWidth 28 = BitVec.ofInt 28 (p.a.toNat % 2 ^ 18 : ℕ) := by
      apply BitVec.eq_of_toNat_eq
      simp only [BitVec.toNat_setWidth, BitVec.toNat_ofInt]
      omega
    rw [shortLowPart, ha, hword, BitVec.signExtend, hdigit9, ← BitVec.ofInt_mul]
  have hhighPart : shortHighPart s = BitVec.ofInt 14 ((p.a.toNat / 2 ^ 18 : ℕ) * p.b.toInt) := by
    have hword : p.a.extractLsb' 18 14 = BitVec.ofInt 14 (p.a.toNat / 2 ^ 18 : ℕ) := by
      have hlt := p.a.isLt
      apply BitVec.eq_of_toNat_eq
      rw [BitVec.extractLsb'_toNat, BitVec.toNat_ofInt, Nat.shiftRight_eq_div_pow]
      omega
    rw [shortHighPart, ha, hword, BitVec.signExtend, hdigit9, ← BitVec.ofInt_mul]
  have hlowInt : (shortLowPart s).toInt = (p.a.toNat % 2 ^ 18 : ℕ) * p.b.toInt := by
    have hmod : p.a.toNat % 2 ^ 18 < 2 ^ 18 := Nat.mod_lt _ (by omega)
    rw [hlowPart, BitVec.toInt_ofInt]
    generalize p.a.toNat % 2 ^ 18 = u at hmod
    have hge := Int.mul_le_mul_of_nonneg_left hle (Int.natCast_nonneg u)
    have hle' := Int.mul_le_mul_of_nonneg_left hlt.le (Int.natCast_nonneg u)
    generalize (u : ℤ) * p.b.toInt = v at hge hle'
    exact Int.bmod_eq_of_le (by omega) (by omega)
  have hhighWord : shortHighPart s ++ 0#18 =
      BitVec.ofInt 32 ((p.a.toNat / 2 ^ 18 : ℕ) * p.b.toInt * 2 ^ 18) := by
    rw [hhighPart]
    generalize ((p.a.toNat / 2 ^ 18 : ℕ) : ℤ) * p.b.toInt = u
    apply BitVec.eq_of_toNat_eq
    rw [Divider.toNat_append_two, BitVec.toNat_ofInt, BitVec.toNat_ofInt]
    simp only [BitVec.toNat_ofNat]
    omega
  have hwhole : ((p.a.toNat % 2 ^ 18 : ℕ) : ℤ) * p.b.toInt +
      ((p.a.toNat / 2 ^ 18 : ℕ) : ℤ) * p.b.toInt * 2 ^ 18 = (p.a.toNat : ℤ) * p.b.toInt := by
    have hsplit : ((p.a.toNat % 2 ^ 18 : ℕ) : ℤ) + ((p.a.toNat / 2 ^ 18 : ℕ) : ℤ) * 2 ^ 18 =
        (p.a.toNat : ℤ) := by omega
    rw [← hsplit]
    ring
  obtain ⟨c, hc⟩ := toInt_eq_toNat_add p.a
  rw [shortProduct, BitVec.signExtend, hlowInt, hhighWord, ← BitVec.ofInt_add, hwhole]
  apply BitVec.eq_of_toInt_eq
  rw [BitVec.toInt_ofInt, BitVec.toInt_ofInt, hc, add_mul, mul_assoc]
  exact (Int.add_mul_bmod_self_left _ (2 ^ 32) _).symm

end Halves

/-! ## Along a run -/

/-- The stage reached after `m` steps. -/
def stageAt (cfg : Config) (m : ℕ) : ℕ := (next cfg)^[m] 0

/-- The operation `p` is held, `m` edges after it was issued. -/
structure Holds {cfg : Config} (p : IssuePacket) (m : ℕ) (s : State cfg) : Prop where
  held : s.held = p
  occupied : s.occupied = true
  mulliShort : s.mulliShort = (decide (m = 0) && issueMulliShort cfg p)

/-- The loop is running. -/
structure Running {cfg : Config} (p : IssuePacket) (m : ℕ) (s : State cfg) : Prop where
  multiplying : Multiplying (factor p p.a) (factor p p.b) (stageAt cfg m) s
  active : s.multiplyActive = true
  digit : m = 0 → s.multiplyDigit = issueDigit cfg p.b

/-- The loop has ended. -/
structure Ended {cfg : Config} (p : IssuePacket) (s : State cfg) : Prop where
  acc : s.multiplyAcc = BitVec.ofInt 64 (factor p p.a * factor p p.b)
  active : s.multiplyActive = false
  done : s.multiplyDone = true

section Run

variable {cfg : Config} {p : IssuePacket}

/-- The bits of the right factor left after `m` steps are copies of its sign. -/
abbrev Exhausted (cfg : Config) (p : IssuePacket) (m : ℕ) : Prop :=
  low (factor p p.b) (stop cfg (stageAt cfg m)) = factor p p.b

theorem factor_bounds (x : BitVec 32) : -2 ^ 39 ≤ factor p x ∧ factor p x < 2 ^ 39 := by
  have hle := BitVec.le_toInt x
  have hlt := BitVec.toInt_lt (x := x)
  have hnat := x.isLt
  rw [factor]
  split_ifs <;> omega

/-- Five bytes are the whole of the right factor. -/
theorem exists_exhausted (cfg : Config) (p : IssuePacket) : ∃ m ≤ 4, Exhausted cfg p m := by
  have hwhole : low (factor p p.b) (39 + 1) = factor p p.b := low_eq_self_iff.2 (factor_bounds p.b)
  cases h602 : cfg.mul602Timing with
  | false =>
    refine ⟨4, le_rfl, ?_⟩
    have hstop : stop cfg (stageAt cfg 4) = 39 + 1 := by simp [stageAt, next, stop, h602]
    rw [Exhausted, hstop, hwhole]
  | true =>
    refine ⟨3, by omega, ?_⟩
    have hstop : stop cfg (stageAt cfg 3) = 39 + 1 := by simp [stageAt, next, stop, h602]
    rw [Exhausted, hstop, hwhole]

/-- A short immediate is read whole by the first step. -/
theorem short_exhausted (h : issueMulliShort cfg p = true) : Exhausted cfg p 0 := by
  simp only [issueMulliShort, Bool.and_eq_true, decide_eq_true_eq, uniform, Bool.or_eq_true] at h
  obtain ⟨⟨⟨h602, -⟩, hop⟩, hbits⟩ := h
  have hlow := (uniform_iff p.b (p := 7) (by omega)).1 hbits
  have hbounds := low_eq_self_iff.1 hlow
  have hstop : stop cfg (stageAt cfg 0) = 15 + 1 := by simp [stageAt, stop, h602]
  rw [Exhausted, hstop, factor, if_neg (by simp [hop])]
  exact low_eq_self_iff.2 (by omega)

variable (r : Run (machine cfg)) {n m t : ℕ}

/-- A multiply is offered once it is done. -/
theorem resultOffer_multiply {s : State cfg} {i : Input} (hfull : cfg.addCompareOnly = false)
    (hmul : AluOp.isMultiply s.held.ctrl.op = true) (hocc : s.occupied = true) :
    resultOffer s i = (i.rstN && s.multiplyDone) := by
  have hdiv : AluOp.isDivide s.held.ctrl.op = false := by
    revert hmul
    cases s.held.ctrl.op <;> decide
  simp [resultOffer, heldComplete, heldDivide, heldMultiply, hfull, hmul, hdiv, hocc]

/-- **The loop after any number of edges left alone.** -/
theorem loop_run (hfull : cfg.addCompareOnly = false)
    (hissues : issues (r.state n) (r.input n) = true)
    (hmul : AluOp.isMultiply (r.input n).issue.ctrl.op = true) (ht : Exhausted cfg (r.input n).issue t)
    (hbefore : ∀ k < t, ¬ Exhausted cfg (r.input n).issue k) (m : ℕ)
    (halone : ∀ j, 1 ≤ j → j ≤ m → LeftAlone (r.state (n + j)) (r.input (n + j))) :
    Holds (r.input n).issue m (r.state (n + 1 + m)) ∧
      (m ≤ t → Running (r.input n).issue m (r.state (n + 1 + m)) ∧
        (r.state (n + 1 + m)).multiplyDone =
          (decide (m = 0) && issueMulliShort cfg (r.input n).issue)) ∧
      (t < m → Ended (r.input n).issue (r.state (n + 1 + m))) := by
  induction m with
  | zero =>
    have hstate : r.state (n + 1 + 0) = step (r.state n) (r.input n) := rfl
    obtain ⟨hheld, hocc, hshort⟩ := accepts_held hissues
    obtain ⟨hstart, hactive, hdone⟩ := multiplying_start hfull hissues hmul
    rw [hstate]
    refine ⟨⟨hheld, hocc, by simpa using hshort⟩,
      fun _ => ⟨⟨hstart, hactive, fun _ => ?_⟩, by simpa using hdone⟩,
      fun h => absurd h (Nat.not_lt_zero t)⟩
    rw [step_multiplyDigit, if_pos (by simp [hissues, issueMultiply, hfull, hmul])]
  | succ m ih =>
    obtain ⟨hholds, hrunning, hended⟩ := ih fun j hj hjm => halone j hj (by omega)
    have hindex : n + (m + 1) = n + 1 + m := by omega
    have hedge := halone (m + 1) (by omega) le_rfl
    rw [hindex] at hedge
    have hstate : r.state (n + 1 + (m + 1)) =
        step (r.state (n + 1 + m)) (r.input (n + 1 + m)) := rfl
    have hno := not_issues hholds.occupied hedge
    obtain ⟨hheld, hocc, hshort⟩ := held_kept hholds.occupied hedge
    obtain ⟨hactive, hdone⟩ := step_control hholds.occupied hedge
    rw [hstate]
    refine ⟨⟨hheld.trans hholds.held, hocc, by simpa using hshort⟩, ?_, ?_⟩
    · intro hmt
      obtain ⟨hrun, hdone'⟩ := hrunning (by omega)
      have hgoes := hbefore m (by omega)
      have hlast : multiplyLast (r.state (n + 1 + m)) = false := by
        rw [Bool.eq_false_iff]
        exact mt (multiplyLast_iff hrun.multiplying).1 hgoes
      have hnotShort : (decide (m = 0) && issueMulliShort cfg (r.input n).issue) = false := by
        rw [Bool.eq_false_iff]
        intro hboth
        simp only [Bool.and_eq_true, decide_eq_true_eq] at hboth
        obtain ⟨rfl, hisShort⟩ := hboth
        exact hgoes (short_exhausted hisShort)
      refine ⟨⟨?_, ?_, fun h => absurd h (Nat.succ_ne_zero m)⟩, ?_⟩
      · rw [stageAt, Function.iterate_succ_apply']
        exact multiplying_step hrun.multiplying hrun.active hno hgoes
      · rw [hactive, hrun.active, hlast]
        rfl
      · rw [hdone, hdone', hlast, hnotShort]
        simp
    · intro htm
      rcases Nat.lt_succ_iff_lt_or_eq.1 htm with hlt | rfl
      · have hprev := hended hlt
        refine ⟨?_, ?_, ?_⟩
        · rw [acc_kept hprev.active hno, hprev.acc]
        · rw [hactive, hprev.active]
          rfl
        · rw [hdone, hprev.done]
          rfl
      · obtain ⟨hrun, -⟩ := hrunning le_rfl
        have hlast : multiplyLast (r.state (n + 1 + t)) = true :=
          (multiplyLast_iff hrun.multiplying).2 ht
        refine ⟨?_, ?_, ?_⟩
        · exact acc_last hrun.multiplying hrun.active hno ht
        · rw [hactive, hlast]
          simp
        · rw [hdone, hrun.active, hlast]
          simp

/-- **Integer multiply is exact.**  After a multiply is issued, and as long as it is left
alone, the loop ends after at most five steps; the result is offered from then on and is the
low or the high word of the exact product; and for `mullw` the overflow bit is set exactly
where the signed product does not fit a word.  The loop of a short
immediate takes one step, and its result is offered one edge before that, with the value the
accumulator then holds. -/
theorem multiply_exact (hfull : cfg.addCompareOnly = false)
    (hissues : issues (r.state n) (r.input n) = true)
    (hmul : AluOp.isMultiply (r.input n).issue.ctrl.op = true) :
    ∃ steps, 1 ≤ steps ∧ steps ≤ 5 ∧
      (issueMulliShort cfg (r.input n).issue = true → steps = 1) ∧
      ∀ m, (∀ j, 1 ≤ j → j ≤ m → LeftAlone (r.state (n + j)) (r.input (n + j))) →
        let p := (r.input n).issue
        let s := r.state (n + 1 + m)
        let i := r.input (n + 1 + m)
        s.held = p ∧ s.multiplyActive = decide (m < steps) ∧
          resultOffer s i = (i.rstN && (decide (steps ≤ m) ||
            (decide (m = 0) && issueMulliShort cfg p))) ∧
          (resultOffer s i = true → (result s).value = product p ∧
            (p.ctrl.op = .mullw → (result s).ov = (p.ctrl.writeOvSo && decide (Overflows p)))) ∧
          (steps ≤ m → s.multiplyAcc = BitVec.ofInt 64 (factor p p.a * factor p p.b)) := by
  have hex : ∃ m, Exhausted cfg (r.input n).issue m := by
    obtain ⟨m, -, hm⟩ := exists_exhausted cfg (r.input n).issue
    exact ⟨m, hm⟩
  obtain ⟨t, ht, hbefore⟩ : ∃ t, Exhausted cfg (r.input n).issue t ∧
      ∀ k < t, ¬ Exhausted cfg (r.input n).issue k := by
    classical
    exact ⟨Nat.find hex, Nat.find_spec hex, fun k hk => Nat.find_min hex hk⟩
  have ht4 : t ≤ 4 := by
    obtain ⟨m, hm4, hm⟩ := exists_exhausted cfg (r.input n).issue
    by_contra hgt
    exact hbefore m (by omega) hm
  refine ⟨t + 1, by omega, by omega, ?_, ?_⟩
  · intro hshort
    by_contra hne
    exact hbefore 0 (by omega) (short_exhausted hshort)
  · intro m halone
    obtain ⟨hholds, hrunning, hended⟩ := loop_run r hfull hissues hmul ht hbefore m halone
    have hoffer := @resultOffer_multiply cfg (r.state (n + 1 + m)) (r.input (n + 1 + m)) hfull
      (by rw [hholds.held]; exact hmul) hholds.occupied
    refine ⟨hholds.held, ?_⟩
    rcases Nat.lt_or_ge t m with htm | hmt
    · have hend := hended htm
      have hm0 : m ≠ 0 := by omega
      have hshort : (r.state (n + 1 + m)).mulliShort = false := by
        rw [hholds.mulliShort, decide_eq_false hm0, Bool.false_and]
      have hacc := hend.acc
      refine ⟨?_, ?_, ?_, fun _ => hacc⟩
      · rw [hend.active, decide_eq_false (by omega)]
      · rw [hoffer, hend.done, decide_eq_true (by omega : t + 1 ≤ m), Bool.true_or]
      · intro _
        rw [← hholds.held] at hmul hacc ⊢
        refine ⟨?_, ?_⟩
        · have hval := aluValue_multiply hfull hmul hacc
          rw [result, resultValue, hshort, if_neg Bool.false_ne_true, hval]
        · intro hop
          have hfactors : (r.state (n + 1 + m)).multiplyAcc =
              BitVec.ofInt 64 ((r.state (n + 1 + m)).held.a.toInt *
                (r.state (n + 1 + m)).held.b.toInt) := by
            rw [hacc, factor, factor, if_neg (by simp [hop]), if_neg (by simp [hop])]
          rw [result, operationOverflow, hfull, if_neg Bool.false_ne_true, hop]
          simp only [multiplyOverflow_eq hfactors]
          cases (r.state (n + 1 + m)).held.ctrl.writeOvSo <;> rfl
    · obtain ⟨hrun, hdone⟩ := hrunning hmt
      refine ⟨?_, ?_, ?_, fun h => absurd h (by omega)⟩
      · rw [hrun.active, decide_eq_true (by omega)]
      · rw [hoffer, hdone, decide_eq_false (by omega : ¬ t + 1 ≤ m), Bool.false_or]
      · intro hoffered
        rw [hoffer, hdone, Bool.and_eq_true, Bool.and_eq_true, decide_eq_true_eq] at hoffered
        obtain ⟨-, hm0, hisShort⟩ := hoffered
        have hop : (r.input n).issue.ctrl.op = .mulli := by
          simp only [issueMulliShort, Bool.and_eq_true, decide_eq_true_eq] at hisShort
          exact hisShort.1.2
        have hshort : (r.state (n + 1 + m)).mulliShort = true := by
          rw [hholds.mulliShort, decide_eq_true hm0, hisShort]
          rfl
        refine ⟨?_, fun hmullw => absurd (hop.symm.trans hmullw) (by decide)⟩
        have hval := shortProduct_eq hisShort (by rw [hholds.held]) (hrun.digit hm0)
        rw [result, resultValue, hshort, if_pos rfl, hval, product, hop]

end Run

/-- `mullw` of `-7` and `300`, by the 602's timing. -/
def minusTwentyOneHundred : Run (machine { mul602Timing := true }) where
  start := step ⟨true, default, 3, ⟨9, 5, 3, 8, false, true, 4, true, false, 0⟩, true, true, true,
    true, false, 5, 77, 99, 1, 2, 3⟩ { rstN := false }
  initial := ⟨_, { rstN := false }, rfl, rfl⟩
  input
    | 0 => { issueValid := true, issue := ⟨{ (default : IuCtrl) with op := .mullw }, 0xfffffff9, 300⟩ }
    | _ => {}

theorem multiply_exact_minusTwentyOneHundred :
    (result (minusTwentyOneHundred.state 6)).value.toInt = -2100 := by
  obtain ⟨steps, -, hsteps, -, hrun⟩ :=
    multiply_exact minusTwentyOneHundred (n := 0) rfl (by decide) rfl
  have halone : ∀ j, 1 ≤ j → j ≤ 5 →
      LeftAlone (minusTwentyOneHundred.state (0 + j)) (minusTwentyOneHundred.input (0 + j)) := by
    intro j hj _
    obtain ⟨j, rfl⟩ := Nat.exists_eq_add_of_le' hj
    exact ⟨rfl, rfl, Bool.and_false _⟩
  obtain ⟨-, -, hoffer, hval, -⟩ := hrun 5 halone
  have hoffered : resultOffer (minusTwentyOneHundred.state (0 + 1 + 5))
      (minusTwentyOneHundred.input (0 + 1 + 5)) = true := by
    rw [hoffer, decide_eq_true hsteps]
    rfl
  rw [(hval hoffered).1]
  decide

end Iu
end SloPPC603
