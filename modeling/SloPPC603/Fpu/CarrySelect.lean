import SloPPC603.Fpu.Adder
import SloPPC603.Words.Carries
import SloPPC603.Words.Jam
import SloPPC603.Words.OneHot

/-!
# The carry-select adder and the jamming shifter are exact

`carry_select112` forms both candidate sums of every block, finds the carries by prefixes
of two, four and eight blocks, and counts the leading zeros of the blocks the carries
select.  Its sum, carry and count are those of the whole words.

* `block_step` — what one block makes of its carry.
* `carryIn_eq`, `carrySelect112_sum` — the carries of the ripple sum, and the sum.
* `leadingZero_leads` — the count, from the first block that is not zero.
* `carrySelect112_exact` — the adder and the shifter.
-/

namespace SloPPC603
namespace Fpu

open Words

namespace CarrySelect

/-! ## One block -/

section Block

variable (lhs rhs : BitVec 112) (subtract : Bool)

theorem toNat_block (v : BitVec 112) (k : ℕ) : (block v k).toNat = v.toNat / 65536 ^ k % 65536 := by
  rw [block, BitVec.extractLsb'_toNat, Nat.shiftRight_eq_div_pow, pow_mul]
  rfl

/-- The blocks of a word. -/
theorem blocks_block (v : BitVec 112) : blocks 65536 (fun k => (block v k).toNat) 7 = v.toNat := by
  have hlt : v.toNat < 65536 ^ 7 := v.isLt
  simp only [toNat_block]
  rw [blocks_div_mod, Nat.mod_eq_of_lt hlt]

theorem toNat_sumZero (k : ℕ) : (sumZero lhs rhs subtract k).toNat =
    (block lhs k).toNat + (block (bValue rhs subtract) k).toNat := by
  have ha := (block lhs k).isLt
  have hb := (block (bValue rhs subtract) k).isLt
  rw [sumZero, BitVec.toNat_add, BitVec.toNat_setWidth, BitVec.toNat_setWidth]
  omega

theorem toNat_candidateZero (k : ℕ) : (candidateZero lhs rhs subtract k).toNat =
    ((block lhs k).toNat + (block (bValue rhs subtract) k).toNat) % 65536 := by
  rw [candidateZero, BitVec.toNat_setWidth, toNat_sumZero]

theorem carryG0_eq (k : ℕ) : carryG0 lhs rhs subtract k =
    decide (65536 ≤ (block lhs k).toNat + (block (bValue rhs subtract) k).toNat) := by
  have ha := (block lhs k).isLt
  have hb := (block (bValue rhs subtract) k).isLt
  rw [carryG0, BitVec.getLsbD, toNat_sumZero, Nat.testBit_eq_decide_div_mod_eq]
  exact decide_eq_decide.2 (by omega)

theorem xor_eq_allOnes (a b : BitVec 16) :
    a ^^^ b = BitVec.allOnes 16 ↔ a.toNat + b.toNat = 65535 := by
  have hb : a ^^^ b = BitVec.allOnes 16 ↔ b = ~~~a := by
    rw [← BitVec.xor_allOnes]
    constructor
    · intro h
      rw [← h, ← BitVec.xor_assoc, BitVec.xor_self, BitVec.zero_xor]
    · intro h
      rw [h, ← BitVec.xor_assoc, BitVec.xor_self, BitVec.zero_xor]
  rw [hb, ← BitVec.toNat_inj, BitVec.toNat_not]
  have := a.isLt
  omega

theorem carryP0_eq (k : ℕ) : carryP0 lhs rhs subtract k =
    decide ((block lhs k).toNat + (block (bValue rhs subtract) k).toNat = 65535) :=
  decide_eq_decide.2 (xor_eq_allOnes _ _)

/-- The carry into each block, from one to the next. -/
abbrev carry : ℕ → Bool := ripple (carryP0 lhs rhs subtract) (carryG0 lhs rhs subtract) subtract

/-- **A block and its carry.** -/
theorem block_step (k : ℕ) :
    (if carry lhs rhs subtract k then candidateOne lhs rhs subtract k
      else candidateZero lhs rhs subtract k).toNat + (carry lhs rhs subtract (k + 1)).toNat * 65536 =
      (block lhs k).toNat + (block (bValue rhs subtract) k).toNat +
        (carry lhs rhs subtract k).toNat := by
  have ha := (block lhs k).isLt
  have hb := (block (bValue rhs subtract) k).isLt
  have hzero := toNat_candidateZero lhs rhs subtract k
  have hone : (candidateOne lhs rhs subtract k).toNat =
      ((candidateZero lhs rhs subtract k).toNat + 1) % 65536 := BitVec.toNat_add _ _
  have hnext : carry lhs rhs subtract (k + 1) = (carryG0 lhs rhs subtract k ||
      (carryP0 lhs rhs subtract k && carry lhs rhs subtract k)) := rfl
  rw [hnext, carryG0_eq, carryP0_eq]
  generalize carry lhs rhs subtract k = c
  generalize (block lhs k).toNat = a at *
  generalize (block (bValue rhs subtract) k).toNat = b at *
  cases c with
  | false =>
    by_cases hg : 65536 ≤ a + b
    · simp [hg]
      omega
    · simp [hg]
      omega
  | true =>
    by_cases hg : 65536 ≤ a + b
    · simp [hg]
      omega
    · by_cases hp : a + b = 65535
      · simp [hp]
        omega
      · simp [hg, hp]
        omega

end Block

/-! ## The carries -/

section Carries

variable (lhs rhs : BitVec 112) (subtract : Bool)

/-- The three stages reach eight blocks. -/
theorem spans_eight : Spans (carryP0 lhs rhs subtract) (carryG0 lhs rhs subtract) subtract 8
    (carryP3 lhs rhs subtract) (carryG3 lhs rhs subtract) :=
  (spans_one _ _ _).join.join.join

/-- **The prefixes find the carries.** -/
theorem carryIn_eq {k : ℕ} (hk : k ≤ 8) : carryIn lhs rhs subtract k = carry lhs rhs subtract k := by
  cases k with
  | zero => rfl
  | succ k => exact ((spans_eight lhs rhs subtract).carry (by omega)).symm

theorem carryOut_eq : (carrySelect112 lhs rhs subtract).carryOut = carry lhs rhs subtract 7 :=
  ((spans_eight lhs rhs subtract).carry (by decide)).symm

/-- The selected blocks are those of the sum. -/
theorem blocks_selected : blocks 65536 (fun k => (selected lhs rhs subtract k).toNat) 7 +
    (carry lhs rhs subtract 7).toNat * 2 ^ 112 =
      lhs.toNat + (bValue rhs subtract).toNat + subtract.toNat := by
  rw [← blocks_block lhs, ← blocks_block (bValue rhs subtract)]
  refine blocks_add (c := carry lhs rhs subtract) fun k hk => ?_
  rw [selected, carryIn_eq _ _ _ (by omega)]
  exact block_step lhs rhs subtract k

theorem toNat_magnitude : (carrySelect112 lhs rhs subtract).magnitude.toNat =
    blocks 65536 (fun k => (selected lhs rhs subtract k).toNat) 7 := by
  simp only [carrySelect112, toNat_append, blocks]
  ring

theorem toNat_bValue : (bValue rhs subtract).toNat =
    if subtract then 2 ^ 112 - 1 - rhs.toNat else rhs.toNat := by
  cases subtract with
  | false => simp [bValue]
  | true =>
    show (rhs ^^^ BitVec.allOnes 112).toNat = 2 ^ 112 - 1 - rhs.toNat
    rw [BitVec.xor_allOnes, BitVec.toNat_not]

/-- **The sum and its carry.** -/
theorem carrySelect112_sum : (carrySelect112 lhs rhs subtract).magnitude.toNat +
    (carrySelect112 lhs rhs subtract).carryOut.toNat * 2 ^ 112 =
      if subtract then lhs.toNat + 2 ^ 112 - rhs.toNat else lhs.toNat + rhs.toNat := by
  have hr := rhs.isLt
  rw [toNat_magnitude, carryOut_eq, blocks_selected, toNat_bValue]
  cases subtract with
  | false => simp
  | true =>
    rw [if_pos rfl, if_pos rfl, Bool.toNat_true]
    omega

end Carries

/-! ## Leading zeros -/

section LeadingZeros

/-- A stage of the count keeps the shift it has made, and half of what was left to do. -/
theorem leads_lzStep {w c k x : ℕ} {p : BitVec w × BitVec c} (hkw : k ≤ w)
    (hc : p.2.toNat + k < 2 ^ c) (hwork : p.1.toNat = x * 2 ^ p.2.toNat)
    (hlow : 2 ^ (w - 2 * k) ≤ p.1.toNat) :
    (lzStep k p).1.toNat = x * 2 ^ (lzStep k p).2.toNat ∧
      2 ^ (w - k) ≤ (lzStep k p).1.toNat ∧ (lzStep k p).2.toNat ≤ p.2.toNat + k := by
  have hpow : 2 ^ w = 2 ^ (w - k) * 2 ^ k := by rw [← pow_add, Nat.sub_add_cancel hkw]
  have htop : p.1.extractLsb' (w - k) k = 0 ↔ p.1.toNat < 2 ^ (w - k) := by
    rw [← BitVec.toNat_inj, BitVec.extractLsb'_toNat, Nat.shiftRight_eq_div_pow]
    have hlt : p.1.toNat / 2 ^ (w - k) < 2 ^ k := by
      rw [Nat.div_lt_iff_lt_mul (Nat.two_pow_pos _), Nat.mul_comm, ← hpow]
      exact p.1.isLt
    have hzero : (0 : BitVec k).toNat = 0 := BitVec.toNat_zero
    rw [Nat.mod_eq_of_lt hlt, hzero, Nat.div_eq_zero_iff_lt (Nat.two_pow_pos _)]
  unfold lzStep
  split_ifs with h
  · have hshort := htop.1 h
    have hk : (BitVec.ofNat c k).toNat = k := by
      rw [BitVec.toNat_ofNat, Nat.mod_eq_of_lt (by omega)]
    have hcount : (p.2 + BitVec.ofNat c k).toNat = p.2.toNat + k := by
      rw [BitVec.toNat_add, hk, Nat.mod_eq_of_lt hc]
    have hfit : p.1.toNat * 2 ^ k < 2 ^ w := by
      rw [hpow]
      exact Nat.mul_lt_mul_of_pos_right hshort (Nat.two_pow_pos k)
    have hshift : (p.1 <<< k).toNat = p.1.toNat * 2 ^ k := by
      rw [BitVec.toNat_shiftLeft, Nat.shiftLeft_eq, Nat.mod_eq_of_lt hfit]
    refine ⟨?_, ?_, ?_⟩
    · rw [hshift, hcount, hwork, pow_add, Nat.mul_assoc]
    · rw [hshift]
      calc 2 ^ (w - k) ≤ 2 ^ (w - 2 * k + k) := Nat.pow_le_pow_right (by decide) (by omega)
        _ = 2 ^ (w - 2 * k) * 2 ^ k := pow_add _ _ _
        _ ≤ p.1.toNat * 2 ^ k := Nat.mul_le_mul_right _ hlow
    · rw [hcount]
  · exact ⟨hwork, by rw [htop] at h; omega, Nat.le_add_right _ _⟩

theorem leads_leadingZero16 {v : BitVec 16} (hv : v ≠ 0) :
    Leads 16 (leadingZero16 v).toNat v.toNat := by
  have hpos : 0 < v.toNat := by
    rw [Nat.pos_iff_ne_zero, ← BitVec.toNat_zero (w := 16), ne_eq, BitVec.toNat_inj]
    exact hv
  obtain ⟨hw8, hl8, hc8⟩ : _ ∧ _ ∧ (lzStep 8 (v, (0 : BitVec 5))).2.toNat ≤ 8 :=
    @leads_lzStep 16 5 8 v.toNat (v, 0) (by decide) (show 0 + 8 < 32 by decide)
      (Nat.mul_one _).symm hpos
  obtain ⟨hw4, hl4, hc4⟩ := leads_lzStep (k := 4) (by decide) (by omega) hw8 hl8
  obtain ⟨hw2, hl2, hc2⟩ := leads_lzStep (k := 2) (by decide) (by omega) hw4 hl4
  obtain ⟨hw1, hl1, -⟩ := leads_lzStep (k := 1) (by decide) (by omega) hw2 hl2
  have hcount : leadingZero16 v =
      (lzStep 1 (lzStep 2 (lzStep 4 (lzStep 8 (v, (0 : BitVec 5)))))).2 := by
    rw [leadingZero16, if_neg hv]
    rfl
  have hlt := (lzStep 1 (lzStep 2 (lzStep 4 (lzStep 8 (v, (0 : BitVec 5)))))).1.isLt
  rw [hcount]
  rw [hw1] at hlt hl1
  exact ⟨Nat.mul_le_mul_left 2 hl1, hlt⟩

section Count

variable (lhs rhs : BitVec 112) (subtract : Bool)

theorem selectedLz_eq (k : ℕ) :
    selectedLz lhs rhs subtract k = leadingZero16 (selected lhs rhs subtract k) := by
  unfold selectedLz selected
  split_ifs <;> rfl

theorem blockZero_eq (k : ℕ) :
    blockZero lhs rhs subtract k = decide (selected lhs rhs subtract k = 0) := by
  unfold blockZero selected
  split_ifs <;> rfl

/-- The three stages of the suffixes reach every block. -/
theorem suffix3_iff {k : ℕ} (hk : k < 7) : suffix3 lhs rhs subtract k = true ↔
    ∀ j, k ≤ j → j < 7 → selected lhs rhs subtract j = 0 := by
  have hall : AllFrom (blockZero lhs rhs subtract) 7 8 (suffix3 lhs rhs subtract) :=
    (((allFrom_one _ 7).join (n := 6) rfl).join (n := 5) rfl).join (n := 3) rfl
  rw [hall k hk]
  simp only [blockZero_eq, decide_eq_true_eq]
  exact ⟨fun h j hj hj7 => h j hj (by omega) hj7, fun h j hj _ hj7 => h j hj hj7⟩

theorem firstBlock_iff {k : ℕ} (hk : k < 7) : firstBlock lhs rhs subtract k = true ↔
    selected lhs rhs subtract k ≠ 0 ∧ ∀ j, k < j → j < 7 → selected lhs rhs subtract j = 0 := by
  rw [firstBlock, Bool.and_eq_true, blockZero_eq, Bool.not_eq_true', decide_eq_false_iff_not]
  refine and_congr_right fun _ => ?_
  split_ifs with h6
  · rw [suffix3_iff _ _ _ (by omega)]
    exact ⟨fun h j hj => h j hj, fun h j hj => h j hj⟩
  · exact ⟨fun _ j hj hj7 => by omega, fun _ => rfl⟩

/-- The counts of the blocks, or-ed together, are that of the first block. -/
theorem combinedLz_eq {k : ℕ} (hk : k < 7) (hfirst : firstBlock lhs rhs subtract k = true) :
    (combinedLz lhs rhs subtract).toNat =
      (leadingZero16 (selected lhs rhs subtract k)).toNat + 16 * (6 - k) := by
  have hmux : combinedLz lhs rhs subtract = gather (· ||| ·) (firstBlock lhs rhs subtract)
      (fun k => BitVec.ofNat 8 ((6 - k) * 16) + (selectedLz lhs rhs subtract k).setWidth 8)
      (List.range 7) 0 := by
    unfold combinedLz gather
    congr 1
    funext lz k
    split_ifs
    · rw [BitVec.and_allOnes]
    · rw [BitVec.ofNat_eq_ofNat, BitVec.and_zero, BitVec.or_zero]
  have huniq : ∀ j ∈ List.range 7, firstBlock lhs rhs subtract j = true → j = k := by
    intro j hj hset
    have hj7 := List.mem_range.1 hj
    obtain ⟨hjne, hjabove⟩ := (firstBlock_iff lhs rhs subtract hj7).1 hset
    obtain ⟨hkne, hkabove⟩ := (firstBlock_iff lhs rhs subtract hk).1 hfirst
    rcases Nat.lt_trichotomy j k with hlt | heq | hgt
    · exact absurd (hjabove k hlt hk) hkne
    · exact heq
    · exact absurd (hkabove j hgt hj7) hjne
  have hlt := (selectedLz lhs rhs subtract k).isLt
  rw [hmux, gather_one List.nodup_range (List.mem_range.2 hk) hfirst huniq, BitVec.ofNat_eq_ofNat,
    BitVec.zero_or, BitVec.toNat_add, BitVec.toNat_ofNat, BitVec.toNat_setWidth, selectedLz_eq]
  rw [selectedLz_eq] at hlt
  omega

/-- **The count is that of the first block that is not zero.** -/
theorem leadingZero_leads {k : ℕ} (hk : k < 7) (hfirst : firstBlock lhs rhs subtract k = true) :
    Leads 112 (combinedLz lhs rhs subtract).toNat
      (carrySelect112 lhs rhs subtract).magnitude.toNat := by
  obtain ⟨hne, habove⟩ := (firstBlock_iff lhs rhs subtract hk).1 hfirst
  have hlow : blocks 65536 (fun k => (selected lhs rhs subtract k).toNat) k < 2 ^ (16 * k) := by
    rw [pow_mul]
    exact blocks_lt fun j _ => (selected lhs rhs subtract j).isLt
  have hmag : (carrySelect112 lhs rhs subtract).magnitude.toNat =
      (selected lhs rhs subtract k).toNat * 2 ^ (16 * k) +
        blocks 65536 (fun k => (selected lhs rhs subtract k).toNat) k := by
    have hzero : ∀ j, k + 1 ≤ j → j < 7 → (selected lhs rhs subtract j).toNat = 0 := by
      intro j hj hj7
      rw [habove j hj hj7]
      rfl
    rw [toNat_magnitude, blocks_of_zero (j := k + 1) hk hzero, blocks, pow_mul, Nat.add_comm]
    rfl
  have hblock := ((leads_leadingZero16 hne).append hlow).widen (16 * (6 - k))
  rw [hmag, combinedLz_eq _ _ _ hk hfirst]
  rwa [show 16 + 16 * k + 16 * (6 - k) = 112 by omega] at hblock

/-- **The count of leading zeros.** -/
theorem carrySelect112_leadingZero : (carrySelect112 lhs rhs subtract).leadingZero.toNat =
    (carrySelect112 lhs rhs subtract).magnitude.clz.toNat := by
  by_cases hall : suffix3 lhs rhs subtract 0 = true
  · have hzero : (carrySelect112 lhs rhs subtract).magnitude = 0 := by
      rw [← BitVec.toNat_inj, toNat_magnitude, blocks_of_zero (j := 0) (Nat.zero_le 7)]
      · rfl
      · intro j hj hj7
        rw [(suffix3_iff lhs rhs subtract (by decide)).1 hall j hj hj7]
        rfl
    rw [hzero]
    simp [carrySelect112, hall]
  · have hex : ∃ k < 7, selected lhs rhs subtract k ≠ 0 := by
      by_contra hno
      refine hall ((suffix3_iff lhs rhs subtract (by decide)).2 fun j _ hj7 => ?_)
      by_contra hne
      exact hno ⟨j, hj7, hne⟩
    obtain ⟨k, hk, hfirst⟩ : ∃ k < 7, firstBlock lhs rhs subtract k = true := by
      -- the last of the blocks that are not zero
      have hlast := Nat.findGreatest_spec (P := fun k => selected lhs rhs subtract k ≠ 0)
        (Nat.le_of_lt_succ hex.choose_spec.1) hex.choose_spec.2
      have hle := Nat.findGreatest_le (P := fun k => selected lhs rhs subtract k ≠ 0) 6
      refine ⟨_, Nat.lt_succ_of_le hle, (firstBlock_iff _ _ _ (Nat.lt_succ_of_le hle)).2
        ⟨hlast, fun j hj hj7 => ?_⟩⟩
      by_contra hne
      exact Nat.findGreatest_is_greatest hj (Nat.le_of_lt_succ hj7) hne
    have hlead := leadingZero_leads lhs rhs subtract hk hfirst
    have hne : (carrySelect112 lhs rhs subtract).magnitude ≠ 0 := by
      intro hzero
      have hpos := hlead.pos
      rw [hzero] at hpos
      cases hpos
    have hlz : (carrySelect112 lhs rhs subtract).leadingZero = combinedLz lhs rhs subtract :=
      if_neg hall
    rw [hlz]
    exact leads_unique hlead (leads_clz hne)

end Count

end LeadingZeros

end CarrySelect

/-! ## The jamming shifter -/

section Jam

variable {w : ℕ}

theorem toNat_jamStep (hw : 0 < w) (k : ℕ) (work : BitVec w) :
    (jamStep k work).toNat = jam k work.toNat := by
  have hbit : ∀ b : Bool, ((BitVec.ofBool b).setWidth w).toNat = b.toNat := by
    intro b
    have hb : b.toNat < 2 ^ w :=
      Nat.lt_of_lt_of_le (Bool.toNat_lt b) (Nat.pow_le_pow_right Nat.zero_lt_two hw)
    rw [BitVec.toNat_setWidth, BitVec.toNat_ofBool, Nat.mod_eq_of_lt hb]
  have hlost : work.extractLsb' 0 k = 0 ↔ work.toNat % 2 ^ k = 0 := by
    rw [← BitVec.toNat_inj, BitVec.extractLsb'_toNat, Nat.shiftRight_zero]
    rfl
  rw [jamStep, BitVec.toNat_or, hbit, BitVec.toNat_ushiftRight, Nat.shiftRight_eq_div_pow, jam]
  congr 1
  by_cases h : work.toNat % 2 ^ k = 0
  · rw [if_pos h, decide_eq_false (not_not.2 (hlost.2 h))]
    rfl
  · rw [if_neg h, decide_eq_true (mt hlost.1 h)]
    rfl

/-- **The stages shift by the bits of the distance.** -/
theorem toNat_shiftRightJam {n : ℕ} (hw : 0 < w) (value : BitVec w) (distance : BitVec 8)
    (hsum : ((List.range n).reverse.map fun k =>
      if distance.getLsbD k then 2 ^ k else 0).sum = distance.toNat ∨ w ≤ distance.toNat) :
    (shiftRightJam n value distance).toNat = jam distance.toNat value.toNat := by
  unfold shiftRightJam
  split_ifs with hfar
  · have hlt : value.toNat < 2 ^ distance.toNat :=
      Nat.lt_of_lt_of_le value.isLt (Nat.pow_le_pow_right (by decide) hfar)
    have hone : 1 < 2 ^ w := Nat.one_lt_two_pow (by omega)
    rw [jam_of_lt hlt, BitVec.toNat_setWidth, BitVec.toNat_ofBool]
    by_cases hz : value = 0
    · rw [decide_eq_false (not_not.2 hz), hz]
      rfl
    · have hne : value.toNat ≠ 0 := fun h => hz (BitVec.toNat_inj.1 h)
      rw [decide_eq_true hz, if_neg hne]
      exact Nat.mod_eq_of_lt hone
  · rw [← hsum.resolve_right hfar]
    generalize (List.range n).reverse = stages
    clear hsum hfar
    induction stages generalizing value with
    | nil => simp
    | cons k stages ih =>
      rw [List.foldl_cons, ih, List.map_cons, List.sum_cons, ← jam_jam]
      congr 1
      split_ifs
      · rw [toNat_jamStep hw]
      · rw [jam_zero]

theorem toNat_shiftRightJam112 (value : BitVec 112) (distance : BitVec 8) :
    (shiftRightJam112 value distance).toNat = jam distance.toNat value.toNat := by
  have hbits : ∀ d : BitVec 8, ((List.range 7).reverse.map fun k =>
      if d.getLsbD k then 2 ^ k else 0).sum = d.toNat ∨ 112 ≤ d.toNat := by decide
  exact toNat_shiftRightJam (by decide) value distance (hbits distance)

end Jam

/-- **The adder and the shifter are exact**: the sum modulo the width, its true carry, the
leading zeros of the sum, and a shift that jams what it loses. -/
theorem carrySelect112_exact :
    (∀ (lhs rhs : BitVec 112) (subtract : Bool),
      (carrySelect112 lhs rhs subtract).magnitude = (if subtract then lhs - rhs else lhs + rhs) ∧
      (carrySelect112 lhs rhs subtract).carryOut =
        (if subtract then decide (rhs.toNat ≤ lhs.toNat)
          else decide (2 ^ 112 ≤ lhs.toNat + rhs.toNat)) ∧
      (carrySelect112 lhs rhs subtract).leadingZero.toNat =
        (carrySelect112 lhs rhs subtract).magnitude.clz.toNat) ∧
    ∀ (value : BitVec 112) (distance : BitVec 8),
      (shiftRightJam112 value distance).toNat = value.toNat / 2 ^ distance.toNat |||
        if value.toNat % 2 ^ distance.toNat = 0 then 0 else 1 := by
  refine ⟨fun lhs rhs subtract => ?_, toNat_shiftRightJam112⟩
  have hsum := CarrySelect.carrySelect112_sum lhs rhs subtract
  have hm := (carrySelect112 lhs rhs subtract).magnitude.isLt
  have hl := lhs.isLt
  have hr := rhs.isLt
  refine ⟨?_, ?_, CarrySelect.carrySelect112_leadingZero lhs rhs subtract⟩
  · rw [← BitVec.toNat_inj]
    cases subtract with
    | false =>
      rw [if_neg Bool.false_ne_true] at hsum ⊢
      rw [BitVec.toNat_add, ← hsum, Nat.add_mul_mod_self_right, Nat.mod_eq_of_lt hm]
    | true =>
      rw [if_pos rfl] at hsum ⊢
      rw [BitVec.toNat_sub, show 2 ^ 112 - rhs.toNat + lhs.toNat = lhs.toNat + 2 ^ 112 - rhs.toNat by
        omega, ← hsum, Nat.add_mul_mod_self_right, Nat.mod_eq_of_lt hm]
  · generalize (carrySelect112 lhs rhs subtract).carryOut = carry at hsum ⊢
    generalize (carrySelect112 lhs rhs subtract).magnitude.toNat = sum at hsum hm
    cases subtract <;> cases carry <;> simp at hsum ⊢ <;> omega

end Fpu
end SloPPC603
