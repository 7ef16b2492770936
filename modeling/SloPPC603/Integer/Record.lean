import SloPPC603.Integer.Unit
import SloPPC603.Words.Shifts

/-!
# The record bits

What the integer unit returns for the rotates, the shifts and the leading-zero count, and the
record bits beside it.  The bits of a rotate or a shift are not read from its result: masks
captured at issue pick out of the source operands the bits that reach it.

* `countLeadingZeros_eq` — the tree count is the count.
* `Captured` — the masks are those of the operation held.
* `architected`, `architectedCa` — the architecture's definition of the operations.
* `record_agrees` — the record bits and the values, in every run.
-/

namespace SloPPC603
namespace Iu

open Clocked Words

/-! ## The leading zeros -/

section Count

variable {count : ℕ → BitVec 6} {level m i : ℕ}

/-- A level of the tree, after its first groups: a group is read before the array's slots it
is read from are written. -/
theorem mergeLevel_groups (m : ℕ) :
    (List.range m).foldl (fun count group => Function.update count group
      (mergeCounts level (count (2 * group)) (count (2 * group + 1)))) count =
    fun i => if i < m then mergeCounts level (count (2 * i)) (count (2 * i + 1)) else count i := by
  induction m with
  | zero => simp
  | succ m ih =>
    rw [List.range_succ, List.foldl_append, ih]
    funext i
    simp only [List.foldl_cons, List.foldl_nil, Function.update_apply]
    by_cases him : i = m
    · subst him
      have hlow : ¬ 2 * i + 1 < i := by omega
      have hhigh : ¬ 2 * i < i := by omega
      rw [if_pos rfl, if_neg hhigh, if_neg hlow, if_pos (Nat.lt_succ_self i)]
    · rw [if_neg him]
      by_cases hlt : i < m
      · rw [if_pos hlt, if_pos (by omega)]
      · rw [if_neg hlt, if_neg (by omega)]

/-- The counts of the groups of `2 ^ level` bits. -/
def Counts (f : ℕ → Bool) (level : ℕ) (count : ℕ → BitVec 6) : Prop :=
  ∀ i < 32 >>> level, (count i).toNat = zeros f (2 ^ level * i) (2 ^ level)

/-- **Two groups are counted as one.** -/
theorem toNat_mergeCounts {f : ℕ → Bool} {high low : BitVec 6} {start : ℕ} (hlevel : level < 5)
    (hhigh : high.toNat = zeros f start (2 ^ level))
    (hlow : low.toNat = zeros f (start + 2 ^ level) (2 ^ level)) :
    (mergeCounts level high low).toNat = zeros f start (2 ^ (level + 1)) := by
  have hle := zeros_le f start (2 ^ level)
  have hle' := zeros_le f (start + 2 ^ level) (2 ^ level)
  have hpow : 2 ^ (level + 1) = 2 ^ level + 2 ^ level := by
    rw [pow_succ]
    omega
  have hsmall : 2 ^ (level + 1) < 64 := by
    have hle5 : 2 ^ (level + 1) ≤ 2 ^ 5 := Nat.pow_le_pow_right (by omega) (by omega)
    omega
  have hbit : ∀ x : BitVec 6, x.toNat ≤ 2 ^ level →
      (x.getLsbD level = true ↔ x.toNat = 2 ^ level) := by
    intro x hx
    rw [BitVec.getLsbD, Nat.testBit_eq_decide_div_mod_eq, decide_eq_true_eq]
    rcases Nat.lt_or_ge x.toNat (2 ^ level) with hlt | hge
    · rw [Nat.div_eq_of_lt hlt]
      omega
    · rw [show x.toNat = 2 ^ level by omega, Nat.div_self (Nat.two_pow_pos level)]
      simp
  have hhigh' := hbit high (by omega)
  have hlow' := hbit low (by omega)
  rw [hpow, zeros_add, mergeCounts, ← hhigh, ← hlow]
  by_cases hh : high.toNat = 2 ^ level
  · rw [if_neg (by simp [hhigh'.2 hh]), if_pos hh]
    by_cases hl : low.toNat = 2 ^ level
    · rw [if_pos (hlow'.2 hl), BitVec.toNat_shiftLeft, Nat.shiftLeft_eq, hh, hl]
      omega
    · have hor := Nat.two_pow_add_eq_or_of_lt (i := level) (b := low.toNat) (by omega) 1
      rw [Nat.mul_one] at hor
      rw [if_neg (mt hlow'.1 hl), BitVec.toNat_or, hh, hor]
  · rw [if_pos (by simpa using mt hhigh'.1 hh), if_neg hh]

/-- A level of the tree. -/
theorem counts_mergeLevel {f : ℕ → Bool} (hlevel : level < 5) (h : Counts f level count) :
    Counts f (level + 1) (mergeLevel count level) := by
  have hgroups : 32 >>> (level + 1) = 16 >>> level := by
    rw [Nat.shiftRight_succ_inside]
  have hpairs : 32 >>> level = 2 * (16 >>> level) := by
    have hcases : level = 0 ∨ level = 1 ∨ level = 2 ∨ level = 3 ∨ level = 4 := by omega
    rcases hcases with rfl | rfl | rfl | rfl | rfl <;> rfl
  intro i hi
  rw [hgroups] at hi
  simp only [mergeLevel, mergeLevel_groups, if_pos hi]
  have hhigh := h (2 * i) (by omega)
  have hlow := h (2 * i + 1) (by omega)
  have hstart : 2 ^ level * (2 * i) = 2 ^ (level + 1) * i := by ring
  have hnext : 2 ^ level * (2 * i + 1) = 2 ^ (level + 1) * i + 2 ^ level := by ring
  rw [hstart] at hhigh
  rw [hnext] at hlow
  exact toNat_mergeCounts hlevel hhigh hlow

/-- **The tree counts the leading zeros.** -/
theorem countLeadingZeros_eq (value : BitVec 32) :
    (countLeadingZeros value).setWidth 32 = value.clz := by
  have hleaf : Counts (fun i => value.getLsbD (31 - i)) 0
      (fun i => (BitVec.ofBool (!value.getLsbD (31 - i))).setWidth 6) := by
    intro i _
    rw [pow_zero, Nat.one_mul]
    cases h : value.getLsbD (31 - i) <;> simp [zeros, h]
  have hroot : Counts (fun i => value.getLsbD (31 - i)) 5 ((List.range 5).foldl mergeLevel
      (fun i => (BitVec.ofBool (!value.getLsbD (31 - i))).setWidth 6)) :=
    counts_mergeLevel (by omega) <| counts_mergeLevel (by omega) <|
      counts_mergeLevel (by omega) <| counts_mergeLevel (by omega) <|
      counts_mergeLevel (by omega) hleaf
  have hcount : (countLeadingZeros value).toNat = zeros (fun i => value.getLsbD (31 - i)) 0 32 :=
    hroot 0 (by decide)
  have hle := zeros_le (fun i => value.getLsbD (31 - i)) 0 32
  apply BitVec.eq_of_toNat_eq
  rw [clz_eq_zeros value (by omega), BitVec.toNat_setWidth, hcount]
  exact Nat.mod_eq_of_lt (by omega)

end Count

/-! ## The architecture's definition -/

/-- The shift count of `slw`, `srw` and `sraw`. -/
def shiftCount (p : IssuePacket) : ℕ := p.b.toNat % 64

/-- What the rotates, the shifts and the leading-zero count return. -/
def architected (p : IssuePacket) : Option (BitVec 32) :=
  match p.ctrl.op with
  | .rotate => some (p.a.rotateLeft (p.b.toNat % 32) &&& p.ctrl.mask)
  | .rlwimi =>
    some ((p.a.rotateLeft p.ctrl.shift.toNat &&& p.ctrl.mask) ||| (p.b &&& ~~~p.ctrl.mask))
  | .slw => some (p.a <<< shiftCount p)
  | .srw => some (p.a >>> shiftCount p)
  | .sraw => some (p.a.sshiftRight (shiftCount p))
  | .cntlzw => some p.a.clz
  | _ => none

/-- The carry of `sraw`: a negative operand loses a set bit. -/
def architectedCa (p : IssuePacket) : Bool :=
  decide (p.a.toInt < 0 ∧ p.a.toNat % 2 ^ shiftCount p ≠ 0)

/-- The sign, positive and zero bits of a value. -/
def classify (v : BitVec 32) : BitVec 3 :=
  if v.toInt < 0 then 0b100 else if 0 < v.toInt then 0b010 else 0b001

/-- What issue captured is that of the operation held. -/
structure Captured {cfg : Config} (s : State cfg) : Prop where
  recordMask : s.recordMask = recordMaskD s.held
  recordSignMask : s.recordSignMask = recordSignMaskD s.held
  rotateAmount : s.rotateAmount = rotateAmountD s.held

section Values

variable {cfg : Config} {s : State cfg} {b : BitVec 32}

theorem toNat_low5 : (b.setWidth 5).toNat = b.toNat % 32 := BitVec.toNat_setWidth _ _

/-- A shift count of 32 and above. -/
theorem shiftCount_eq (p : IssuePacket) : shiftCount p =
    if p.b.getLsbD 5 then p.b.toNat % 32 + 32 else p.b.toNat % 32 := by
  have hbit : p.b.getLsbD 5 = decide (p.b.toNat / 32 % 2 = 1) := by
    rw [BitVec.getLsbD, Nat.testBit_eq_decide_div_mod_eq]
  rw [shiftCount, hbit]
  by_cases h : p.b.toNat / 32 % 2 = 1
  · rw [if_pos (decide_eq_true h)]
    omega
  · rw [if_neg (by simpa using h)]
    omega

/-- The word a rotate is read from. -/
theorem rotateValue_eq : rotateValue s = s.held.a.rotateLeft s.rotateAmount.toNat :=
  extractLsb'_double s.rotateAmount.isLt

theorem leftMask_eq : leftMask s = BitVec.allOnes 32 <<< (s.held.b.toNat % 32) := by
  rw [leftMask, toNat_low5]
  rfl

theorem rightMask_eq : rightMask s = BitVec.allOnes 32 >>> (s.held.b.toNat % 32) := by
  rw [rightMask, toNat_low5]
  rfl

/-- The rotate amount of a right shift. -/
theorem toNat_back : (0 - b.setWidth 5).toNat = (32 - b.toNat % 32) % 32 := by
  have hzero : (0 : BitVec 5).toNat = 0 := rfl
  rw [BitVec.toNat_sub, toNat_low5, hzero]
  omega

/-- The right shifts, below a count of 32. -/
theorem rotated_right (hcap : s.rotateAmount = 0 - s.held.b.setWidth 5) :
    rotateValue s &&& rightMask s = s.held.a >>> (s.held.b.toNat % 32) := by
  rw [rotateValue_eq, rightMask_eq, hcap, toNat_back]
  exact rotate_and_right (Nat.mod_lt _ (by omega))

theorem fill_msb (x : BitVec 32) :
    fill (x.getLsbD 31) = if x.msb then BitVec.allOnes 32 else 0 := by
  rw [BitVec.msb_eq_getLsbD_last]
  rfl

/-- **The values of the architecture.** -/
theorem aluValue_architected (hfull : cfg.addCompareOnly = false) (hcap : Captured s)
    {v : BitVec 32} (hv : architected s.held = some v) : (aluValue s).1 = v := by
  have hamount := hcap.rotateAmount
  have hlt : s.held.b.toNat % 32 < 32 := Nat.mod_lt _ (by omega)
  simp only [architected] at hv
  simp only [aluValue, hfull, Bool.false_eq_true, if_false]
  cases hop : s.held.ctrl.op <;> simp only [hop, Option.some.injEq, reduceCtorEq] at hv ⊢ <;>
    simp only [rotateAmountD, hop] at hamount <;> subst hv
  case rotate => rw [rotateValue_eq, hamount, toNat_low5]
  case rlwimi => rw [rotateValue_eq, hamount]
  case slw =>
    rw [shiftCount_eq]
    split_ifs with h5
    · rw [BitVec.shiftLeft_eq_zero (by omega)]
      rfl
    · rw [rotateValue_eq, hamount, toNat_low5, leftMask_eq]
      exact rotate_and_left hlt
  case srw =>
    rw [shiftCount_eq]
    split_ifs with h5
    · rw [BitVec.ushiftRight_eq_zero (by omega)]
      rfl
    · exact rotated_right hamount
  case sraw =>
    rw [shiftCount_eq, srawValue, signFill, fill_msb]
    by_cases h5 : s.held.b.getLsbD 5 = true
    · rw [if_pos h5, if_pos h5, sshiftRight_of_le (by omega)]
    · rw [if_neg h5, if_neg h5, sshiftRight_eq, rotated_right hamount, rightMask_eq]
  case cntlzw => exact countLeadingZeros_eq _

/-- **The carry of the architecture.** -/
theorem srawCa_eq : srawCa s = architectedCa s.held := by
  have hneg : s.held.a.getLsbD 31 = decide (s.held.a.toInt < 0) := Divider.sign_bit _
  have hlost : ∀ n < 32, (s.held.a &&& ~~~(BitVec.allOnes 32 <<< n)).toNat =
      s.held.a.toNat % 2 ^ n := by
    intro n hn
    apply Nat.eq_of_testBit_eq
    intro i
    rw [Nat.testBit_mod_two_pow, BitVec.testBit_toNat, BitVec.testBit_toNat, BitVec.getLsbD_and,
      BitVec.getLsbD_not, BitVec.getLsbD_shiftLeft]
    by_cases hi : i < 32
    · rw [decide_eq_true hi, getLsbD_allOnes, decide_eq_true (by omega : i - n < 32)]
      by_cases hin : i < n <;> simp [hin]
    · rw [BitVec.getLsbD_of_ge _ _ (by omega)]
      simp
  rw [srawCa, signFill, architectedCa, hneg, shiftCount_eq, leftMask_eq]
  by_cases hsign : s.held.a.toInt < 0
  · have hpos : s.held.a.toNat ≠ 0 := by
      rw [BitVec.toInt_eq_toNat_cond] at hsign
      split_ifs at hsign <;> omega
    rw [decide_eq_true hsign, Bool.true_and]
    by_cases h5 : s.held.b.getLsbD 5 = true
    · have hword : s.held.a.toNat < 2 ^ (s.held.b.toNat % 32 + 32) :=
        s.held.a.isLt.trans_le (Nat.pow_le_pow_right (by omega) (by omega))
      rw [if_pos h5, h5, Nat.mod_eq_of_lt hword, Bool.true_or, decide_eq_true ⟨hsign, hpos⟩]
    · have hzero : s.held.a &&& ~~~(BitVec.allOnes 32 <<< (s.held.b.toNat % 32)) ≠ 0 ↔
          s.held.a.toNat % 2 ^ (s.held.b.toNat % 32) ≠ 0 := by
        rw [← hlost _ (Nat.mod_lt _ (by omega)), ne_eq, ne_eq, ← BitVec.toNat_inj]
        rfl
      rw [if_neg h5, Bool.eq_false_iff.2 h5, Bool.false_or, decide_eq_decide, hzero]
      exact (and_iff_right hsign).symm
  · rw [decide_eq_false hsign, Bool.false_and, decide_eq_false fun h => hsign h.1]

/-! ## The record -/

/-- The word the record bits are read from has the sign of the value, and is zero with it. -/
def Agrees (out : BitVec 32 × BitVec 32) : Prop :=
  out.2.getLsbD 31 = out.1.getLsbD 31 ∧ (out.2 ≠ 0 ↔ out.1 ≠ 0)

theorem flags_of_agrees {out : BitVec 32 × BitVec 32} (h : Agrees out) :
    flagsFromRecord out.2 = flagsFromRecord out.1 := by
  have hzero : out.2 = 0 ↔ out.1 = 0 := not_iff_not.1 h.2
  simp only [flagsFromRecord, h.1, ne_eq, hzero]

theorem flagsFromRecord_eq (v : BitVec 32) : flagsFromRecord v = classify v := by
  have hneg := Divider.sign_bit v
  have hzero : v = 0 ↔ v.toInt = 0 := by
    rw [← BitVec.toInt_inj]
    rfl
  simp only [flagsFromRecord, classify, hneg, ne_eq, hzero]
  rcases lt_trichotomy v.toInt 0 with hlt | heq | hgt
  · have hne : v.toInt ≠ 0 := by omega
    simp [hlt, hne]
  · simp [heq]
  · have hne : v.toInt ≠ 0 := by omega
    have hnot : ¬ v.toInt < 0 := by omega
    simp [hnot, hne, hgt]

/-- A record of a sign and a bit for the rest. -/
theorem agrees_pair {v : BitVec 32} {sign nonzero : Bool} (hsign : sign = v.getLsbD 31)
    (hnonzero : sign = true ∨ nonzero = true ↔ v ≠ 0) : Agrees (v, recordPair sign nonzero) := by
  have htop : (recordPair sign nonzero).getLsbD 31 = sign := by
    cases sign <;> cases nonzero <;> decide
  have hzero : recordPair sign nonzero ≠ 0 ↔ sign = true ∨ nonzero = true := by
    cases sign <;> cases nonzero <;> decide
  exact ⟨htop.trans hsign, hzero.trans hnonzero⟩

end Values

section Masks

variable {cfg : Config} {s : State cfg} {m : BitVec 32} {n : BitVec 5}

theorem getLsbD_sign (k i : ℕ) : (0x80000000#32 >>> k).getLsbD i = decide (k + i = 31) := by
  rw [BitVec.getLsbD_ushiftRight, show (0x80000000#32) = BitVec.twoPow 32 31 by rfl,
    BitVec.getLsbD_twoPow, decide_eq_true (by omega : 31 < 32), Bool.true_and]
  exact decide_eq_decide.2 eq_comm

/-- The sign mask picks out the bit that reaches the sign. -/
theorem sign_reaches (x : BitVec 32) (k : ℕ) (hk : k < 32) :
    x &&& (0x80000000#32 >>> k) ≠ 0 ↔ x.getLsbD (31 - k) = true := by
  rw [and_ne_zero_iff]
  simp only [getLsbD_sign, decide_eq_true_eq]
  constructor
  · rintro ⟨i, -, hx, hi⟩
    rwa [show 31 - k = i by omega]
  · intro hx
    exact ⟨31 - k, by omega, hx, by omega⟩

/-- **A rotate's masks pick out the bits that reach its result.** -/
theorem rotate_masks (x : BitVec 32) :
    (x &&& ((0x80000000#32 >>> n.toNat) &&& fill (m.getLsbD 31)) ≠ 0 ↔
        (x.rotateLeft n.toNat &&& m).getLsbD 31 = true) ∧
      (x &&& inverseRotateMask m n ≠ 0 ↔ x.rotateLeft n.toNat &&& m ≠ 0) := by
  have hn := n.isLt
  refine ⟨?_, ?_⟩
  · have htop : (x.rotateLeft n.toNat).getLsbD 31 = x.getLsbD (31 - n.toNat) := rotate_top hn
    rw [BitVec.getLsbD_and, htop, Bool.and_eq_true]
    cases hm : m.getLsbD 31
    · simp [fill]
    · have hall : ∀ y : BitVec 32, y &&& fill true = y := by
        intro y
        rw [fill, if_pos rfl, BitVec.and_allOnes]
      rw [hall, sign_reaches x _ hn]
      simp
  · rw [inverseRotateMask, setWidth_double hn]
    exact (rotate_and_ne_zero_iff hn).symm

/-- The record word of a rotate or a shift, over the value of the architecture. -/
theorem agrees_of_architected {v : BitVec 32} (sign nonzero : Bool)
    (hfull : cfg.addCompareOnly = false) (hcap : Captured s)
    (hv : architected s.held = some v) (hrecord : (aluValue s).2 = recordPair sign nonzero)
    (hsign : sign = true ↔ v.getLsbD 31 = true)
    (hnonzero : sign = true ∨ nonzero = true ↔ v ≠ 0) : Agrees (aluValue s) := by
  have hval := aluValue_architected hfull hcap hv
  have hpair : aluValue s = (v, recordPair sign nonzero) := Prod.ext hval hrecord
  rw [hpair]
  exact agrees_pair (Bool.eq_iff_iff.2 hsign) hnonzero

/-- A word is not zero when its sign is set. -/
theorem sign_or {v : BitVec 32} {sign nonzero : Prop} (hsign : sign ↔ v.getLsbD 31 = true)
    (hnonzero : nonzero ↔ v ≠ 0) : sign ∨ nonzero ↔ v ≠ 0 := by
  rw [hsign, hnonzero]
  exact or_iff_right_of_imp fun h => ne_zero_iff.2 ⟨31, by omega, h⟩

theorem recordASign_iff : recordASign s = true ↔ s.held.a &&& s.recordSignMask ≠ 0 :=
  decide_eq_true_iff

theorem recordANonzero_iff : recordANonzero s = true ↔ s.held.a &&& s.recordMask ≠ 0 :=
  decide_eq_true_iff

variable (hfull : cfg.addCompareOnly = false) (hcap : Captured s)
include hfull hcap

theorem rotate_agrees (hop : s.held.ctrl.op = .rotate) : Agrees (aluValue s) := by
  have hmask := hcap.recordMask
  have hsign := hcap.recordSignMask
  simp only [recordMaskD, recordSignMaskD, hop] at hmask hsign
  obtain ⟨htop, hrest⟩ := @rotate_masks s.held.ctrl.mask (s.held.b.setWidth 5) s.held.a
  rw [← hsign, toNat_low5] at htop
  rw [← hmask, toNat_low5] at hrest
  have hs := recordASign_iff.trans htop
  exact agrees_of_architected (recordASign s) (recordANonzero s) hfull hcap
    (by rw [architected, hop]) (by simp [aluValue, hfull, hop]) hs
    (sign_or hs (recordANonzero_iff.trans hrest))

theorem rlwimi_agrees (hop : s.held.ctrl.op = .rlwimi) : Agrees (aluValue s) := by
  have hmask := hcap.recordMask
  have hsign := hcap.recordSignMask
  simp only [recordMaskD, recordSignMaskD, hop] at hmask hsign
  obtain ⟨htop, hrest⟩ := @rotate_masks s.held.ctrl.mask s.held.ctrl.shift s.held.a
  rw [← hsign, ← recordASign_iff] at htop
  rw [← hmask, ← recordANonzero_iff] at hrest
  have hs : (recordASign s || recordBSign s) = true ↔
      ((s.held.a.rotateLeft s.held.ctrl.shift.toNat &&& s.held.ctrl.mask) |||
        (s.held.b &&& ~~~s.held.ctrl.mask)).getLsbD 31 = true := by
    rw [Bool.or_eq_true, htop, BitVec.getLsbD_or, Bool.or_eq_true, recordBSign]
    simp
  have hn : (recordANonzero s || recordBNonzero s) = true ↔
      (s.held.a.rotateLeft s.held.ctrl.shift.toNat &&& s.held.ctrl.mask) |||
        (s.held.b &&& ~~~s.held.ctrl.mask) ≠ 0 := by
    rw [Bool.or_eq_true, hrest, recordBNonzero, decide_eq_true_iff, ne_eq, ne_eq, ne_eq,
      show (0 : BitVec 32) = 0#32 by rfl, BitVec.or_eq_zero_iff]
    tauto
  exact agrees_of_architected _ _ hfull hcap (by rw [architected, hop])
    (by simp [aluValue, hfull, hop]) hs (sign_or hs hn)

theorem slw_agrees (hop : s.held.ctrl.op = .slw) : Agrees (aluValue s) := by
  have hmask := hcap.recordMask
  have hsign := hcap.recordSignMask
  simp only [recordMaskD, recordSignMaskD, hop, toNat_low5] at hmask hsign
  have hlt : s.held.b.toNat % 32 < 32 := Nat.mod_lt _ (by omega)
  have hcount := shiftCount_eq s.held
  have hs : recordASign s = true ↔ (s.held.a <<< shiftCount s.held).getLsbD 31 = true := by
    rw [recordASign_iff, hsign, hcount]
    split_ifs with h5
    · rw [BitVec.shiftLeft_eq_zero (by omega)]
      simp
    · rw [sign_reaches _ _ hlt, BitVec.getLsbD_shiftLeft,
        decide_eq_false (by omega : ¬ 31 < s.held.b.toNat % 32)]
      simp
  have hn : recordANonzero s = true ↔ s.held.a <<< shiftCount s.held ≠ 0 := by
    rw [recordANonzero_iff, hmask, hcount]
    split_ifs with h5
    · rw [BitVec.shiftLeft_eq_zero (by omega)]
      simp
    · exact shiftLeft_ne_zero_iff.symm
  exact agrees_of_architected _ _ hfull hcap (by rw [architected, hop])
    (by simp [aluValue, hfull, hop]) hs (sign_or hs hn)

theorem srw_agrees (hop : s.held.ctrl.op = .srw) : Agrees (aluValue s) := by
  have hmask := hcap.recordMask
  have hsign := hcap.recordSignMask
  simp only [recordMaskD, recordSignMaskD, hop, toNat_low5] at hmask hsign
  have hcount := shiftCount_eq s.held
  have hsix : s.held.b.setWidth 6 = 0 ↔ shiftCount s.held = 0 := by
    rw [← BitVec.toNat_inj, BitVec.toNat_setWidth, shiftCount]
    rfl
  have hs : recordASign s = true ↔ (s.held.a >>> shiftCount s.held).getLsbD 31 = true := by
    rw [recordASign_iff, hsign, BitVec.getLsbD_ushiftRight]
    split_ifs with h6
    · rw [hsix.1 h6]
      exact sign_reaches s.held.a 0 (by omega)
    · have hpos := mt hsix.2 h6
      rw [BitVec.getLsbD_of_ge _ _ (by omega)]
      simp
  have hn : recordANonzero s = true ↔ s.held.a >>> shiftCount s.held ≠ 0 := by
    rw [recordANonzero_iff, hmask, hcount]
    split_ifs with h5
    · rw [BitVec.ushiftRight_eq_zero (by omega)]
      simp
    · exact ushiftRight_ne_zero_iff.symm
  exact agrees_of_architected _ _ hfull hcap (by rw [architected, hop])
    (by simp [aluValue, hfull, hop]) hs (sign_or hs hn)

theorem sraw_agrees (hop : s.held.ctrl.op = .sraw) : Agrees (aluValue s) := by
  have hmask := hcap.recordMask
  have hsign := hcap.recordSignMask
  simp only [recordMaskD, recordSignMaskD, hop, toNat_low5] at hmask hsign
  have hcount := shiftCount_eq s.held
  have hmsb : s.held.a.msb = s.held.a.getLsbD 31 := BitVec.msb_eq_getLsbD_last _
  have hs : recordASign s = true ↔ s.held.a.getLsbD 31 = true := by
    rw [recordASign_iff, hsign]
    exact sign_reaches s.held.a 0 (by omega)
  have htop : (s.held.a.sshiftRight (shiftCount s.held)).getLsbD 31 = s.held.a.getLsbD 31 := by
    rw [BitVec.getLsbD_sshiftRight, decide_eq_false (by omega : ¬ 32 ≤ 31), hmsb]
    split_ifs with hlt
    · rw [show shiftCount s.held + 31 = 31 by omega]
      rfl
    · rfl
  have hn : recordASign s = true ∨ recordANonzero s = true ↔
      s.held.a.sshiftRight (shiftCount s.held) ≠ 0 := by
    cases hneg : s.held.a.getLsbD 31 with
    | true =>
      rw [hneg] at hs htop
      exact iff_of_true (Or.inl (hs.2 rfl)) (ne_zero_iff.2 ⟨31, by omega, htop⟩)
    | false =>
      rw [hneg] at hs hmsb
      rw [BitVec.sshiftRight_eq_of_msb_false hmsb, or_iff_right (by simpa using hs),
        recordANonzero_iff, hmask, hcount]
      split_ifs with h5
      · rw [BitVec.ushiftRight_eq_zero (by omega)]
        simp
      · exact ushiftRight_ne_zero_iff.symm
  exact agrees_of_architected _ _ hfull hcap (by rw [architected, hop])
    (by simp [aluValue, hfull, hop]) (by rw [hs, htop]) hn

/-- **The record word agrees with the value.** -/
theorem aluValue_agrees : Agrees (aluValue s) := by
  have hsame : (aluValue s).2 = (aluValue s).1 → Agrees (aluValue s) := by
    intro h
    rw [Agrees, h]
    exact ⟨rfl, Iff.rfl⟩
  cases hop : s.held.ctrl.op
  case rotate => exact rotate_agrees hfull hcap hop
  case rlwimi => exact rlwimi_agrees hfull hcap hop
  case slw => exact slw_agrees hfull hcap hop
  case srw => exact srw_agrees hfull hcap hop
  case sraw => exact sraw_agrees hfull hcap hop
  all_goals exact hsame (by simp [aluValue, hfull, hop])

end Masks

/-! ## The compares -/

/-- Less, greater and equal. -/
def ordered (x y : ℤ) : BitVec 3 := if x < y then 0b100 else if y < x then 0b010 else 0b001

/-- The order of a compare's operands. -/
def compared (p : IssuePacket) : BitVec 3 :=
  if p.ctrl.op = .cmpl then ordered p.a.toNat p.b.toNat else ordered p.a.toInt p.b.toInt

theorem ordered_bits {x y : ℤ} {gt eq : Bool} (hgt : gt = decide (y < x)) (heq : eq = decide (x = y)) :
    BitVec.ofBool (!gt && !eq) ++ BitVec.ofBool gt ++ BitVec.ofBool eq = ordered x y := by
  rw [hgt, heq, ordered]
  rcases lt_trichotomy x y with hlt | rfl | hgt
  · simp [hlt, lt_asymm hlt, hlt.ne]
  · simp
  · simp [hgt, lt_asymm hgt, hgt.ne']

section Compare

variable {cfg : Config} {s : State cfg}

/-- A compare subtracts: `~a + b + 1` is `b - a` with the borrow's complement above it. -/
theorem toNat_addSum (hinvert : s.held.ctrl.invertA = true) (hcarry : s.held.ctrl.carryIn = .one) :
    (addSum s).toNat = 2 ^ 32 - s.held.a.toNat + s.held.b.toNat := by
  have ha := s.held.a.isLt
  have hb := s.held.b.isLt
  have hone : (BitVec.ofBool true).toNat = 1 := rfl
  simp only [addSum, addOperandA, addCarryIn, hinvert, hcarry, if_true, BitVec.toNat_add,
    BitVec.toNat_setWidth, BitVec.toNat_not, hone]
  omega

/-- **A compare's bits are the order of its operands.** -/
theorem compare_bits (hinvert : s.held.ctrl.invertA = true) (hcarry : s.held.ctrl.carryIn = .one) :
    BitVec.ofBool (!compareGt s && !compareEq s) ++ BitVec.ofBool (compareGt s) ++
      BitVec.ofBool (compareEq s) = compared s.held := by
  have hsum := toNat_addSum hinvert hcarry
  have ha := s.held.a.isLt
  have hb := s.held.b.isLt
  have hbit : ∀ {w : ℕ} (x : BitVec w) (i : ℕ), x.getLsbD i = decide (x.toNat / 2 ^ i % 2 = 1) :=
    fun x i => by rw [BitVec.getLsbD, Nat.testBit_eq_decide_div_mod_eq]
  have hnot : (addOperandA s).toNat = 2 ^ 32 - 1 - s.held.a.toNat := by
    rw [addOperandA, hinvert, if_pos rfl, BitVec.toNat_not]
  have hover : ((addSum s).getLsbD 31 != addOverflow s) =
      decide (s.held.b.toInt < s.held.a.toInt) := by
    have hsign := hbit (addSum s) 31
    have hna := hbit (addOperandA s) 31
    have hnb := hbit s.held.b 31
    rw [hnot] at hna
    rw [hsum] at hsign
    rw [addOverflow, hsign, hna, hnb, BitVec.toInt_eq_toNat_cond, BitVec.toInt_eq_toNat_cond]
    generalize s.held.a.toNat = a at ha
    generalize s.held.b.toNat = b at hb
    rw [Bool.eq_iff_iff, decide_eq_true_iff]
    -- the signs of the operands decide between the sum's sign and its complement
    rcases Nat.lt_or_ge a (2 ^ 31) with ha31 | ha31 <;> rcases Nat.lt_or_ge b (2 ^ 31) with hb31 | hb31
    · rw [decide_eq_true (by omega : (2 ^ 32 - 1 - a) / 2 ^ 31 % 2 = 1),
        decide_eq_false (by omega : ¬ b / 2 ^ 31 % 2 = 1), if_pos (by omega), if_pos (by omega)]
      simp
      omega
    · rw [decide_eq_true (by omega : (2 ^ 32 - 1 - a) / 2 ^ 31 % 2 = 1),
        decide_eq_true (by omega : b / 2 ^ 31 % 2 = 1), if_neg (by omega), if_pos (by omega)]
      simp
      omega
    · rw [decide_eq_false (by omega : ¬ (2 ^ 32 - 1 - a) / 2 ^ 31 % 2 = 1),
        decide_eq_false (by omega : ¬ b / 2 ^ 31 % 2 = 1), if_pos (by omega), if_neg (by omega)]
      simp
      omega
    · rw [decide_eq_false (by omega : ¬ (2 ^ 32 - 1 - a) / 2 ^ 31 % 2 = 1),
        decide_eq_true (by omega : b / 2 ^ 31 % 2 = 1), if_neg (by omega), if_neg (by omega)]
      simp
      omega
  rw [compared]
  by_cases hop : s.held.ctrl.op = .cmpl
  · rw [if_pos hop]
    refine ordered_bits ?_ ?_
    · rw [compareGt, if_pos hop, hbit, hsum, ← decide_not, decide_eq_decide]
      omega
    · rw [compareEq, decide_eq_decide, ← BitVec.toNat_inj]
      omega
  · rw [if_neg hop]
    refine ordered_bits ?_ ?_
    · rw [compareGt, if_neg hop, hover]
    · rw [compareEq, decide_eq_decide, BitVec.toInt_inj]

end Compare

/-! ## Along a run -/

section Run

variable {cfg : Config}

/-- What holds of the operation held. -/
structure Consistent (s : State cfg) : Prop where
  captured : Captured s
  short : s.mulliShort = true → s.held.ctrl.op = .mulli

/-- **An edge keeps what was captured with the operation held.** -/
theorem consistent_step {s : State cfg} {i : Input} (h : s.occupied = true → Consistent s)
    (hocc : (step s i).occupied = true) : Consistent (step s i) := by
  cases hissues : issues s i with
  | true =>
    refine ⟨⟨?_, ?_, ?_⟩, ?_⟩
    · rw [step_recordMask, step_held, if_pos hissues, if_pos hissues]
    · rw [step_recordSignMask, step_held, if_pos hissues, if_pos hissues]
    · rw [step_rotateAmount, step_held, if_pos hissues, if_pos hissues]
    · intro hshort
      rw [step_mulliShort, Bool.and_eq_true, issueMulliShort] at hshort
      rw [step_held, if_pos hissues]
      simp only [Bool.and_eq_true, decide_eq_true_eq] at hshort
      exact hshort.2.1.2
  | false =>
    rw [step_occupied, hissues, Bool.false_or, Bool.and_eq_true, Bool.and_eq_true] at hocc
    have hold := (h hocc.2.1).captured
    have hno : ¬ issues s i = true := by simp [hissues]
    refine ⟨⟨?_, ?_, ?_⟩, ?_⟩
    · rw [step_recordMask, step_held, if_neg hno, if_neg hno, hold.recordMask]
    · rw [step_recordSignMask, step_held, if_neg hno, if_neg hno, hold.recordSignMask]
    · rw [step_rotateAmount, step_held, if_neg hno, if_neg hno, hold.rotateAmount]
    · intro hshort
      rw [step_mulliShort, hissues, Bool.and_false, Bool.false_and] at hshort
      cases hshort

/-- The record bits above the overflow bit. -/
theorem top_flags (f : BitVec 3) (b : Bool) : (f ++ BitVec.ofBool b).extractLsb' 1 3 = f := by
  apply BitVec.eq_of_getLsbD_eq
  intro i hi
  rw [BitVec.getLsbD_extractLsb', BitVec.getLsbD_append, decide_eq_true hi, Bool.true_and,
    if_neg (by omega), Nat.add_sub_cancel_left]

variable (r : Run (machine cfg)) {n : ℕ}

theorem consistent_run (hocc : (r.state n).occupied = true) : Consistent (r.state n) := by
  induction n with
  | zero =>
    obtain ⟨s₀, i, hrst, hstart⟩ := r.initial
    have hidle : r.start.occupied = false := by
      rw [hstart, step_occupied, hrst, Bool.false_and]
    exact nomatch (hidle.symm.trans hocc)
  | succ n ih => exact consistent_step ih hocc

/-- **Record bits agree with the result.**  Whenever a result is offered: the record bits of
every operation but a compare, and but a short immediate's one-cycle result, which is asserted
to write none, are the sign, positive and zero bits of the value; a compare returns zero and
its bits are the order of its operands; and the values of the rotates, the insert, the shifts
and the leading-zero count, and the carry of the arithmetic shift, are the architecture's. -/
theorem record_agrees (hoffer : resultOffer (r.state n) (r.input n) = true) :
    let s := r.state n
    let op := s.held.ctrl.op
    let out := result s
    (AluOp.isCompare op = false → s.held.ctrl.writeCrField = true → s.mulliShort = false →
      out.cr0.extractLsb' 1 3 = classify out.value) ∧
    (AluOp.isCompare op = true → out.value = 0 ∧
      (s.held.ctrl.writeCrField = true → s.held.ctrl.invertA = true → s.held.ctrl.carryIn = .one →
        out.cr0.extractLsb' 1 3 = compared s.held)) ∧
    (cfg.addCompareOnly = false →
      (∀ v, architected s.held = some v → out.value = v) ∧
      (op = .sraw → s.held.ctrl.writeCa = true → out.ca = architectedCa s.held)) := by
  have hocc : (r.state n).occupied = true := by
    simp only [resultOffer, Bool.and_eq_true] at hoffer
    exact hoffer.1.2
  obtain ⟨hcap, hshort⟩ := consistent_run r hocc
  generalize r.state n = s at hcap hshort
  refine ⟨?_, ?_, ?_⟩
  · intro hcompare hwrite hnoShort
    have hagrees : Agrees (aluValue s) := by
      cases hfull : cfg.addCompareOnly with
      | false => exact aluValue_agrees hfull hcap
      | true =>
        simp only [aluValue, hfull, if_true]
        exact ⟨rfl, Iff.rfl⟩
    simp only [result, resultValue, cr0, heldCompare, hwrite, hcompare, hnoShort, Bool.not_true,
      Bool.false_eq_true, if_false]
    rw [top_flags, recordFlags, flags_of_agrees hagrees, flagsFromRecord_eq]
  · intro hcompare
    have hnoShort : s.mulliShort = false := by
      rw [Bool.eq_false_iff]
      intro h
      rw [hshort h] at hcompare
      exact absurd hcompare (by decide)
    refine ⟨?_, ?_⟩
    · simp only [AluOp.isCompare, Bool.or_eq_true, decide_eq_true_eq] at hcompare
      rcases hcompare with hop | hop <;>
        simp [result, resultValue, aluValue, heldCompare, AluOp.isCompare, hnoShort, hop]
    · intro hwrite hinvert hcarry
      simp only [result, cr0, heldCompare, hwrite, hcompare, Bool.not_true, Bool.false_eq_true,
        if_false, if_true]
      rw [top_flags, compare_bits hinvert hcarry]
  · intro hfull
    refine ⟨?_, ?_⟩
    · intro v hv
      have hnoShort : s.mulliShort = false := by
        rw [Bool.eq_false_iff]
        intro h
        rw [architected, hshort h] at hv
        exact absurd hv (by simp)
      rw [result, resultValue, hnoShort, if_neg Bool.false_ne_true]
      exact aluValue_architected hfull hcap hv
    · intro hop hwrite
      simp [result, hop, hwrite, hfull, srawCa_eq]

end Run

/-! ## A compare -/

/-- `cmpw` of `1` and `2`. -/
def lessThan : Run (machine {}) where
  start := step ⟨true, default, 3, ⟨9, 5, 3, 8, false, true, 4, true, false, 0⟩, true, true, true,
    true, false, 5, 77, 99, 1, 2, 3⟩ { rstN := false }
  initial := ⟨_, { rstN := false }, rfl, rfl⟩
  input
    | 0 => {
        issueValid := true
        issue := ⟨{ (default : IuCtrl) with
          op := .cmp
          invertA := true
          carryIn := .one
          writeCrField := true }, 1, 2⟩ }
    | _ => {}

/-- The bits say that the operand is less, and the value is zero. -/
theorem compare_disagrees : ∃ (r : Run (machine {})) (n : ℕ),
    resultOffer (r.state n) (r.input n) = true ∧
      (r.state n).held.ctrl.writeCrField = true ∧ (r.state n).mulliShort = false ∧
      (result (r.state n)).cr0.extractLsb' 1 3 ≠ classify (result (r.state n)).value :=
  ⟨lessThan, 1, by decide, by decide, by decide, by decide⟩

/-- The compare's bits are the order of its operands. -/
theorem record_agrees_lessThan : (result (lessThan.state 1)).cr0.extractLsb' 1 3 = 0b100 := by
  obtain ⟨-, hcompare, -⟩ := record_agrees lessThan (n := 1) (by decide)
  exact (hcompare (by decide)).2 (by decide) (by decide) (by decide)

end Iu
end SloPPC603
