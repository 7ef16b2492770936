import SloPPC603.Fpu.Operands
import SloPPC603.Words.Binary
import SloPPC603.Words.Shifts
import Mathlib.Algebra.Order.Field.Basic
import Mathlib.Tactic.FieldSimp
import Mathlib.Tactic.IntervalCases
import Mathlib.Tactic.Linarith

/-!
# Single-format loads and stores

The conversions between the register format and a word in memory:
`ppc_fpu_shell_pkg.sv`, and the 602's from `ppc_fpu_arith_pkg.sv`.

* `widenSingle`, `narrowSingle` — a load and a store of the single format.
* `operand602`, `word602`, `fits602` — the 602's encoding of a single in double layout.
* `storeSingle` — the architecture's definition of a store, with its denormalizing loop.
* `single_format` — that these agree.
-/

namespace SloPPC603
namespace Fpu

open Words

/-! ## Conversions -/

/-- The highest bit set, by the scan of `widen_single`. -/
def lead {w : ℕ} (frac : BitVec w) : ℕ :=
  (List.range w).foldl (fun lead i => if frac.getLsbD i then i else lead) 0

/-- `widen_single`. -/
def widenSingle (s : BitVec 32) : BitVec 64 :=
  let frac := s.extractLsb' 0 23
  let exp := s.extractLsb' 23 8
  if exp = 0xff then Binary.pack (s.getLsbD 31) 0x7ff#11 (frac ++ 0#29)
  else if exp ≠ 0 then
    Binary.pack (s.getLsbD 31) (BitVec.ofNat 11 (exp.toNat + 896)) (frac ++ 0#29)
  else if frac ≠ 0 then
    Binary.pack (s.getLsbD 31) (BitVec.ofNat 11 (lead frac + 874))
      (frac.setWidth 52 <<< (52 - lead frac))
  else Binary.pack (s.getLsbD 31) 0#11 0#52

/-- `narrow_single`. -/
def narrowSingle (d : BitVec 64) : BitVec 32 :=
  let exponent := (d.extractLsb' 52 11).toNat
  if 897 ≤ exponent then
    Binary.pack (d.getLsbD 63) (BitVec.ofBool (d.getLsbD 62) ++ d.extractLsb' 52 7)
      (d.extractLsb' 29 23)
  else if exponent ≠ 0 ∧ 29 + (897 - exponent) < 53 then
    Binary.pack (d.getLsbD 63) 0#8
      (((1#1 ++ d.extractLsb' 0 52) >>> (29 + (897 - exponent))).setWidth 23)
  else Binary.pack (d.getLsbD 63) 0#8 0#23

/-- `operand_602`. -/
def operand602 (s : BitVec 32) : BitVec 64 :=
  let exp := s.extractLsb' 23 8
  Binary.pack (s.getLsbD 31)
    (if exp = 0xff then 0x7ff#11 else if exp = 0 then 0#11
      else BitVec.ofBool (s.getLsbD 30) ++ BitVec.ofBool (!s.getLsbD 30) ++
        BitVec.ofBool (!s.getLsbD 30) ++ BitVec.ofBool (!s.getLsbD 30) ++ s.extractLsb' 23 7)
    (s.extractLsb' 0 23 ++ 0#29)

/-- `word_602`. -/
def word602 (d : BitVec 64) : BitVec 32 :=
  Binary.pack (d.getLsbD 63) (BitVec.ofBool (d.getLsbD 62) ++ d.extractLsb' 52 7)
    (d.extractLsb' 29 23)

/-- `fits_602`. -/
def fits602 (d : BitVec 63) : Bool :=
  d = 0 || (897 ≤ (d.extractLsb' 52 11).toNat && (d.extractLsb' 52 11).toNat ≤ 1150 &&
    d.extractLsb' 0 29 = 0)

/-! ## The architecture's store -/

/-- A store of the single format as the architecture defines it: a copy of fields, or a
significand shifted right once for each exponent below the smallest. -/
def storeSingle (d : BitVec 64) : BitVec 32 :=
  let exponent := (Binary.biased 11 52 d).toNat
  if 896 < exponent ∨ d.extractLsb' 0 63 = 0 then d.extractLsb' 62 2 ++ d.extractLsb' 29 30
  else
    BitVec.ofBool (d.getLsbD 63) ++ 0#8 ++
      ((fun frac : BitVec 53 => frac >>> 1)^[897 - exponent]
        (1#1 ++ d.extractLsb' 0 52)).extractLsb' 29 23

/-! ## The leading one -/

section Lead

variable {w : ℕ} {frac : BitVec w}

theorem lead_scan (frac : BitVec w) (n : ℕ) :
    let l := (List.range n).foldl (fun lead i => if frac.getLsbD i then i else lead) 0
    (∀ i, i < n → l < i → frac.getLsbD i = false) ∧
      ((∃ i, i < n ∧ frac.getLsbD i = true) → frac.getLsbD l = true) := by
  induction n with
  | zero => exact ⟨fun i hi => absurd hi (Nat.not_lt_zero i), fun ⟨i, hi, _⟩ => absurd hi (Nat.not_lt_zero i)⟩
  | succ n ih =>
    simp only [List.range_succ, List.foldl_append, List.foldl_cons, List.foldl_nil] at ih ⊢
    cases hn : frac.getLsbD n with
    | true =>
      rw [if_pos rfl]
      exact ⟨fun i hi hlt => by omega, fun _ => hn⟩
    | false =>
      rw [if_neg Bool.false_ne_true]
      refine ⟨fun i hi hlt => ?_, ?_⟩
      · by_cases heq : i = n
        · rw [heq, hn]
        · exact ih.1 i (by omega) hlt
      · rintro ⟨i, hi, hset⟩
        refine ih.2 ⟨i, ?_, hset⟩
        have hne : i ≠ n := fun h => by rw [h, hn] at hset; cases hset
        omega

theorem lead_spec (h : frac ≠ 0) :
    lead frac < w ∧ 2 ^ lead frac ≤ frac.toNat ∧ frac.toNat < 2 ^ (lead frac + 1) := by
  have hscan := lead_scan frac w
  have hset : frac.getLsbD (lead frac) = true := hscan.2 (ne_zero_iff.1 h)
  refine ⟨?_, Nat.ge_two_pow_of_testBit hset, Nat.lt_pow_two_of_testBit _ fun i hi => ?_⟩
  · by_contra hge
    rw [BitVec.getLsbD_of_ge _ _ (Nat.not_lt.1 hge)] at hset
    cases hset
  · by_cases hlt : i < w
    · exact hscan.1 i hlt hi
    · exact BitVec.getLsbD_of_ge _ _ (Nat.not_lt.1 hlt)

end Lead

/-! ## Widening -/

section Widen

variable (g : Bool) (E : BitVec 8) (F : BitVec 23)

/-- `widen_single` of the word of three fields. -/
theorem widenSingle_pack : widenSingle (Binary.pack g E F) =
    if E = 0xff then Binary.pack g 0x7ff#11 (F ++ 0#29)
    else if E ≠ 0 then Binary.pack g (BitVec.ofNat 11 (E.toNat + 896)) (F ++ 0#29)
    else if F ≠ 0 then
      Binary.pack g (BitVec.ofNat 11 (lead F + 874)) (F.setWidth 52 <<< (52 - lead F))
    else Binary.pack g 0#11 0#52 := by
  have hg : (Binary.pack g E F).getLsbD 31 = g := Binary.sign_pack g E F
  have hE : (Binary.pack g E F).extractLsb' 23 8 = E := Binary.biased_pack g E F
  have hF : (Binary.pack g E F).extractLsb' 0 23 = F := Binary.fraction_pack g E F
  simp only [widenSingle, hg, hE, hF]

theorem toNat_append_zero : (F ++ 0#29).toNat = F.toNat * 2 ^ 29 := by
  rw [BitVec.toNat_append, BitVec.toNat_ofNat, Nat.zero_mod, Nat.or_zero, Nat.shiftLeft_eq]

/-- The fraction of a widened denormal: its bits below the leading one. -/
theorem toNat_widened {F : BitVec 23} (hF : F ≠ 0) :
    (F.setWidth 52 <<< (52 - lead F)).toNat = F.toNat * 2 ^ (52 - lead F) - 2 ^ 52 ∧
      2 ^ 52 ≤ F.toNat * 2 ^ (52 - lead F) ∧ F.toNat * 2 ^ (52 - lead F) < 2 ^ 53 := by
  obtain ⟨hlt, hle, hgt⟩ := lead_spec hF
  have hpow : 2 ^ lead F * 2 ^ (52 - lead F) = 2 ^ 52 := by
    rw [← Nat.pow_add]
    congr 1
    omega
  have hlow : 2 ^ 52 ≤ F.toNat * 2 ^ (52 - lead F) := by
    rw [← hpow]
    exact Nat.mul_le_mul_right _ hle
  have hhigh : F.toNat * 2 ^ (52 - lead F) < 2 ^ 53 := by
    have hdouble : 2 ^ (lead F + 1) * 2 ^ (52 - lead F) = 2 ^ 53 := by
      rw [Nat.pow_succ, Nat.mul_right_comm, hpow]
      rfl
    rw [← hdouble]
    exact Nat.mul_lt_mul_of_pos_right hgt (Nat.two_pow_pos _)
  refine ⟨?_, hlow, hhigh⟩
  rw [BitVec.toNat_shiftLeft, BitVec.toNat_setWidth, Nat.shiftLeft_eq,
    Nat.mod_eq_of_lt (a := F.toNat) (by omega)]
  omega

/-- The exponent field of a widened word, which no number has at its largest. -/
theorem toNat_ofNat_exponent {n : ℕ} (h : n < 2048) : (BitVec.ofNat 11 n).toNat = n := by
  rw [BitVec.toNat_ofNat, Nat.mod_eq_of_lt h]

theorem ofNat_exponent_ne_zero {n : ℕ} (h : n < 2048) (h0 : n ≠ 0) : BitVec.ofNat 11 n ≠ 0 := by
  intro heq
  have hn := congrArg BitVec.toNat heq
  rw [toNat_ofNat_exponent h] at hn
  exact h0 hn

/-- **A load is exact**: a finite word has the value of the register. -/
theorem value_widenSingle (h : E ≠ 0xff) : Binary.value 11 52 (widenSingle (Binary.pack g E F)) =
    Binary.value 8 23 (Binary.pack g E F) := by
  rw [widenSingle_pack, if_neg h, Binary.value_pack]
  by_cases hE : E = 0
  · rw [if_neg (not_not.2 hE), hE]
    by_cases hF : F = 0
    · rw [if_neg (not_not.2 hF), hF]
      refine (Binary.value_pack g 0#11 0#52).trans ?_
      simp
    · obtain ⟨hlt, -, -⟩ := lead_spec hF
      obtain ⟨hw, hle, -⟩ := toNat_widened hF
      have hexp := ofNat_exponent_ne_zero (n := lead F + 874) (by omega) (by omega)
      rw [if_pos hF]
      refine (Binary.value_pack g (BitVec.ofNat 11 (lead F + 874)) _).trans ?_
      rw [if_neg hexp, if_neg hexp, hw, toNat_ofNat_exponent (by omega), if_pos rfl, if_pos rfl]
      refine Binary.scale_eq (k := 52 - lead F) (by omega) ?_ _
      push_cast
      omega
  · have hlt : E.toNat < 255 := by
      have hne : E.toNat ≠ 255 := fun heq => h (BitVec.eq_of_toNat_eq heq)
      omega
    have hpos : E.toNat ≠ 0 := fun heq => hE (BitVec.eq_of_toNat_eq heq)
    have hexp := ofNat_exponent_ne_zero (n := E.toNat + 896) (by omega) (by omega)
    rw [if_pos hE]
    refine (Binary.value_pack g (BitVec.ofNat 11 (E.toNat + 896)) (F ++ 0#29)).trans ?_
    rw [if_neg hexp, if_neg hexp, toNat_append_zero, toNat_ofNat_exponent (by omega), if_neg hE,
      if_neg hE]
    refine Binary.scale_eq (k := 29) (by ring) ?_ _
    push_cast
    omega

end Widen

/-! ## Narrowing -/

/-- The exponent field of a stored word: the top bit and the low seven. -/
def storedExp (E : BitVec 11) : BitVec 8 := BitVec.ofBool (E.getLsbD 10) ++ E.extractLsb' 0 7

section Narrow

variable (g : Bool) (E : BitVec 11) (F : BitVec 52)

theorem pack_parts : (Binary.pack g E F).getLsbD 63 = g ∧
    (Binary.pack g E F).getLsbD 62 = E.getLsbD 10 ∧
    (Binary.pack g E F).extractLsb' 52 11 = E ∧
    (Binary.pack g E F).extractLsb' 52 7 = E.extractLsb' 0 7 ∧
    (Binary.pack g E F).extractLsb' 29 23 = F.extractLsb' 29 23 ∧
    (Binary.pack g E F).extractLsb' 0 52 = F := by
  have hE := Binary.biased_pack g E F
  have hF := Binary.fraction_pack g E F
  refine ⟨Binary.sign_pack g E F, ?_, hE, ?_, ?_, hF⟩
  · conv_rhs => rw [← hE, Binary.biased, BitVec.getLsbD_extractLsb']
    exact (Bool.true_and _).symm
  · conv_rhs => rw [← hE]
    exact (Binary.extractLsb'_biased (e := 11) (f := 52) _ (show 0 + 7 ≤ 11 by decide)).symm
  · conv_rhs => rw [← hF]
    exact (Binary.extractLsb'_fraction (f := 52) _ (show 29 + 23 ≤ 52 by decide)).symm

theorem narrowSingle_pack : narrowSingle (Binary.pack g E F) =
    if 897 ≤ E.toNat then Binary.pack g (storedExp E) (F.extractLsb' 29 23)
    else if E.toNat ≠ 0 ∧ 29 + (897 - E.toNat) < 53 then
      Binary.pack g 0#8 (((1#1 ++ F) >>> (29 + (897 - E.toNat))).setWidth 23)
    else Binary.pack g 0#8 0#23 := by
  obtain ⟨h63, h62, hE, hE7, hF, hF52⟩ := pack_parts g E F
  simp only [narrowSingle, h63, h62, hE, hE7, hF, hF52]
  rfl

theorem word602_pack : word602 (Binary.pack g E F) =
    Binary.pack g (storedExp E) (F.extractLsb' 29 23) := by
  obtain ⟨h63, h62, -, hE7, hF, -⟩ := pack_parts g E F
  simp only [word602, h63, h62, hE7, hF]
  rfl

end Narrow

theorem extract_append_zero (F : BitVec 23) : (F ++ 0#29).extractLsb' 29 23 = F := by
  refine BitVec.eq_of_getLsbD_eq fun j hj => ?_
  rw [BitVec.getLsbD_extractLsb', decide_eq_true hj, Bool.true_and, BitVec.getLsbD_append,
    if_neg (by omega), Nat.add_sub_cancel_left]

theorem append_extract {F : BitVec 52} (h : F.extractLsb' 0 29 = 0) :
    F.extractLsb' 29 23 ++ 0#29 = F := by
  refine BitVec.eq_of_getLsbD_eq fun j hj => ?_
  rw [BitVec.getLsbD_append]
  split_ifs with hlow
  · have hbit := congrArg (BitVec.getLsbD · j) h
    simp only [BitVec.getLsbD_extractLsb', hlow, decide_true, Bool.true_and, Nat.zero_add] at hbit
    rw [hbit]
    rfl
  · rw [BitVec.getLsbD_extractLsb', decide_eq_true (by omega), Bool.true_and,
      Nat.add_sub_cancel' (by omega)]

theorem toNat_one_append (F : BitVec 52) : (1#1 ++ F).toNat = 2 ^ 52 + F.toNat := by
  rw [BitVec.toNat_append, ← Nat.shiftLeft_add_eq_or_of_lt F.isLt]
  rfl

theorem getLsbD_eq_div {w : ℕ} (x : BitVec w) (j : ℕ) :
    x.getLsbD j = decide (x.toNat / 2 ^ j % 2 = 1) :=
  Nat.testBit_eq_decide_div_mod_eq

/-- A rebiased exponent is stored as it was. -/
theorem storedExp_ofNat {E : BitVec 8} (h : E ≠ 0) :
    storedExp (BitVec.ofNat 11 (E.toNat + 896)) = E := by
  have hlt := E.isLt
  have hpos : E.toNat ≠ 0 := fun heq => h (BitVec.eq_of_toNat_eq heq)
  refine BitVec.eq_of_getLsbD_eq fun j hj => ?_
  have hE : (BitVec.ofNat 11 (E.toNat + 896)).toNat = E.toNat + 896 :=
    toNat_ofNat_exponent (by omega)
  rw [storedExp, BitVec.getLsbD_append]
  split_ifs with hlow
  · rw [BitVec.getLsbD_extractLsb', decide_eq_true hlow, Bool.true_and, Nat.zero_add,
      getLsbD_eq_div, getLsbD_eq_div, hE]
    have hmod : (E.toNat + 896) / 2 ^ j % 2 = E.toNat / 2 ^ j % 2 := by
      interval_cases j <;> omega
    rw [hmod]
  · obtain rfl : j = 7 := by omega
    have hmod : (E.toNat + 896) / 2 ^ 10 % 2 = E.toNat / 2 ^ 7 % 2 := by omega
    have hbit : (BitVec.ofNat 11 (E.toNat + 896)).getLsbD 10 = E.getLsbD 7 := by
      rw [getLsbD_eq_div, getLsbD_eq_div, hE, hmod]
    rw [hbit]
    cases E.getLsbD 7 <;> rfl

/-- **A load and a store give the word back.** -/
theorem narrowSingle_widenSingle (s : BitVec 32) : narrowSingle (widenSingle s) = s := by
  obtain ⟨g, E, F, rfl⟩ : ∃ g E F, s = Binary.pack (e := 8) (f := 23) g E F :=
    ⟨_, _, _, Binary.eq_pack (e := 8) (f := 23) s⟩
  rw [widenSingle_pack]
  by_cases hff : E = 0xff
  · rw [if_pos hff, hff]
    refine (narrowSingle_pack g 0x7ff#11 (F ++ 0#29)).trans ?_
    rw [if_pos (by decide), extract_append_zero]
    rfl
  rw [if_neg hff]
  by_cases hE : E ≠ 0
  · have hlt := E.isLt
    rw [if_pos hE]
    refine (narrowSingle_pack g _ (F ++ 0#29)).trans ?_
    have hpos : E.toNat ≠ 0 := fun heq => hE (BitVec.eq_of_toNat_eq heq)
    rw [toNat_ofNat_exponent (by omega), if_pos (by omega), extract_append_zero,
      storedExp_ofNat hE]
  rw [if_neg hE, not_not.1 hE]
  by_cases hF : F ≠ 0
  · obtain ⟨hlt, -, -⟩ := lead_spec hF
    obtain ⟨hw, hle, hlt53⟩ := toNat_widened hF
    rw [if_pos hF]
    refine (narrowSingle_pack g (BitVec.ofNat 11 (lead F + 874)) _).trans ?_
    rw [toNat_ofNat_exponent (by omega), if_neg (by omega), if_pos (by omega)]
    have hfield : ((1#1 ++ F.setWidth 52 <<< (52 - lead F)) >>>
        (29 + (897 - (lead F + 874)))).setWidth 23 = F := by
      refine BitVec.eq_of_toNat_eq ?_
      have hone : (1#1 ++ F.setWidth 52 <<< (52 - lead F)).toNat = F.toNat * 2 ^ (52 - lead F) := by
        rw [toNat_one_append, hw]
        omega
      have hshift : 29 + (897 - (lead F + 874)) = 52 - lead F := by omega
      rw [BitVec.toNat_setWidth, BitVec.toNat_ushiftRight, hone, hshift, Nat.shiftRight_eq_div_pow,
        Nat.mul_div_cancel _ (Nat.two_pow_pos _), Nat.mod_eq_of_lt F.isLt]
    rw [hfield]
    rfl
  · rw [if_neg hF, not_not.1 hF]
    refine (narrowSingle_pack g 0#11 0#52).trans ?_
    rfl

/-! ## The architecture's store -/

theorem iterate_shift (x : BitVec 53) (n : ℕ) : (fun y : BitVec 53 => y >>> 1)^[n] x = x >>> n := by
  induction n with
  | zero => simp
  | succ n ih =>
    rw [Function.iterate_succ_apply', ih]
    exact (BitVec.shiftRight_add x n 1).symm

/-- A copied word, by its fields. -/
theorem copy_eq (d : BitVec 64) : (d.extractLsb' 62 2 ++ d.extractLsb' 29 30 : BitVec 32) =
    Binary.pack (d.getLsbD 63) (BitVec.ofBool (d.getLsbD 62) ++ d.extractLsb' 52 7)
      (d.extractLsb' 29 23) := by
  refine BitVec.eq_of_getLsbD_eq fun j hj => ?_
  rw [Binary.pack, BitVec.getLsbD_append, BitVec.getLsbD_append, BitVec.getLsbD_append,
    BitVec.getLsbD_append]
  by_cases hF : j < 23
  · rw [if_pos (by omega), if_pos hF, BitVec.getLsbD_extractLsb', BitVec.getLsbD_extractLsb',
      decide_eq_true hF, decide_eq_true (by omega)]
  rw [if_neg hF]
  by_cases hE : j < 30
  · rw [if_pos hE, if_pos (by omega), if_pos (by omega), BitVec.getLsbD_extractLsb',
      BitVec.getLsbD_extractLsb', decide_eq_true hE, decide_eq_true (by omega)]
    congr 2
    omega
  · rw [if_neg hE, BitVec.getLsbD_extractLsb']
    obtain rfl | rfl : j = 30 ∨ j = 31 := by omega
    · rw [if_pos (by decide), if_neg (by decide)]
      show (true && d.getLsbD 62) = _
      cases d.getLsbD 62 <;> rfl
    · rw [if_neg (by decide)]
      show (true && d.getLsbD 63) = _
      cases d.getLsbD 63 <;> rfl

/-- The fields of a zero. -/
theorem getLsbD_of_zero {d : BitVec 64} (h : d.extractLsb' 0 63 = 0) {j : ℕ} (hj : j < 63) :
    d.getLsbD j = false := by
  have hbit : (d.extractLsb' 0 63).getLsbD j = false := by
    rw [h]
    exact BitVec.getLsbD_zero
  rwa [BitVec.getLsbD_extractLsb', decide_eq_true hj, Bool.true_and, Nat.zero_add] at hbit

theorem extract_of_zero {d : BitVec 64} (h : d.extractLsb' 0 63 = 0) {lo n : ℕ} (hn : lo + n ≤ 63) :
    d.extractLsb' lo n = 0 := by
  refine BitVec.eq_of_getLsbD_eq fun j hj => ?_
  rw [BitVec.getLsbD_extractLsb', getLsbD_of_zero h (by omega), Bool.and_false]
  exact (BitVec.getLsbD_zero).symm

/-- **A store is the architecture's.** -/
theorem narrowSingle_eq_storeSingle (d : BitVec 64) : narrowSingle d = storeSingle d := by
  have hcopy := copy_eq d
  rw [narrowSingle, storeSingle]
  by_cases hlarge : 897 ≤ (d.extractLsb' 52 11).toNat
  · rw [if_pos hlarge]
    refine (hcopy.symm.trans (if_pos (Or.inl ?_)).symm)
    exact hlarge
  rw [if_neg hlarge]
  have hE : (Binary.biased 11 52 d).toNat = (d.extractLsb' 52 11).toNat := rfl
  by_cases hzero : d.extractLsb' 0 63 = 0
  · have hnone : (d.extractLsb' 52 11).toNat = 0 :=
      congrArg BitVec.toNat (extract_of_zero hzero (show 52 + 11 ≤ 63 by decide))
    refine Eq.trans ?_ (hcopy.symm.trans (if_pos (Or.inr hzero)).symm)
    rw [if_neg fun h => h.1 hnone, getLsbD_of_zero hzero (show 62 < 63 by decide),
      extract_of_zero hzero (show 52 + 7 ≤ 63 by decide),
      extract_of_zero hzero (show 29 + 23 ≤ 63 by decide)]
    rfl
  · refine Eq.trans ?_ (if_neg fun h => h.elim hlarge hzero).symm
    rw [iterate_shift, hE]
    generalize (d.extractLsb' 52 11).toNat = exponent at hlarge ⊢
    generalize (1#1 ++ d.extractLsb' 0 52) = frac
    have hmove : (frac >>> (897 - exponent)).extractLsb' 29 23 =
        (frac >>> (29 + (897 - exponent))).setWidth 23 := by
      refine BitVec.eq_of_getLsbD_eq fun j hj => ?_
      simp only [BitVec.getLsbD_extractLsb', BitVec.getLsbD_ushiftRight, BitVec.getLsbD_setWidth, hj,
        decide_true, Bool.true_and]
      congr 1
      omega
    rw [hmove]
    split_ifs with hshift
    · rfl
    · have hout : frac >>> (29 + (897 - exponent)) = 0 := by
        refine BitVec.eq_of_getLsbD_eq fun j hj => ?_
        rw [BitVec.getLsbD_ushiftRight, BitVec.getLsbD_of_ge _ _ (by omega)]
        exact (BitVec.getLsbD_zero).symm
      rw [hout]
      rfl

/-! ## The 602 -/

theorem getLsbD_above {m n : ℕ} (x : BitVec m) (y : BitVec n) (k : ℕ) :
    (x ++ y).getLsbD (n + k) = x.getLsbD k := by
  rw [BitVec.getLsbD_append, if_neg (by omega), Nat.add_sub_cancel_left]

/-- The exponent field of a 602 operand. -/
def operandExp602 (E : BitVec 8) : BitVec 11 :=
  if E = 0xff then 0x7ff#11 else if E = 0 then 0#11
  else BitVec.ofBool (E.getLsbD 7) ++ BitVec.ofBool (!E.getLsbD 7) ++
    BitVec.ofBool (!E.getLsbD 7) ++ BitVec.ofBool (!E.getLsbD 7) ++ E.extractLsb' 0 7

theorem operand602_pack (g : Bool) (E : BitVec 8) (F : BitVec 23) :
    operand602 (Binary.pack g E F) = Binary.pack g (operandExp602 E) (F ++ 0#29) := by
  have hg : (Binary.pack g E F).getLsbD 31 = g := Binary.sign_pack g E F
  have hE : (Binary.pack g E F).extractLsb' 23 8 = E := Binary.biased_pack g E F
  have hF : (Binary.pack g E F).extractLsb' 0 23 = F := Binary.fraction_pack g E F
  have hE7 : (Binary.pack g E F).extractLsb' 23 7 = E.extractLsb' 0 7 := by
    conv_rhs => rw [← hE]
    exact (Binary.extractLsb'_biased (e := 8) (f := 23) _ (show 0 + 7 ≤ 8 by decide)).symm
  have htop : (Binary.pack g E F).getLsbD 30 = E.getLsbD 7 := by
    conv_rhs => rw [← hE, BitVec.getLsbD_extractLsb']
    exact (Bool.true_and _).symm
  simp only [operand602, hg, hE, hF, hE7, htop, operandExp602]

theorem storedExp_operandExp602 (E : BitVec 8) : storedExp (operandExp602 E) = E := by
  unfold operandExp602
  split_ifs with hff hzero
  · rw [hff]
    rfl
  · rw [hzero]
    rfl
  · have hlow : (BitVec.ofBool (E.getLsbD 7) ++ BitVec.ofBool (!E.getLsbD 7) ++
        BitVec.ofBool (!E.getLsbD 7) ++ BitVec.ofBool (!E.getLsbD 7) ++
        E.extractLsb' 0 7).extractLsb' 0 7 = E.extractLsb' 0 7 := by
      refine BitVec.eq_of_getLsbD_eq fun j hj => ?_
      rw [BitVec.getLsbD_extractLsb', decide_eq_true hj, Bool.true_and, Nat.zero_add,
        BitVec.getLsbD_append, if_pos hj]
    have hsplit : BitVec.ofBool (E.getLsbD 7) ++ E.extractLsb' 0 7 = E := by
      refine BitVec.eq_of_getLsbD_eq fun j hj => ?_
      rw [BitVec.getLsbD_append]
      split_ifs with h
      · rw [BitVec.getLsbD_extractLsb', decide_eq_true h, Bool.true_and, Nat.zero_add]
      · obtain rfl : j = 7 := by omega
        cases E.getLsbD 7 <;> rfl
    have htop : (BitVec.ofBool (E.getLsbD 7) ++ BitVec.ofBool (!E.getLsbD 7) ++
        BitVec.ofBool (!E.getLsbD 7) ++ BitVec.ofBool (!E.getLsbD 7) ++
        E.extractLsb' 0 7).getLsbD (7 + 3) = E.getLsbD 7 := by
      rw [getLsbD_above]
      cases E.getLsbD 7 <;> rfl
    rw [storedExp, hlow]
    refine Eq.trans ?_ hsplit
    exact congrArg (BitVec.ofBool · ++ E.extractLsb' 0 7) htop

theorem word602_operand602 (s : BitVec 32) : word602 (operand602 s) = s := by
  obtain ⟨g, E, F, rfl⟩ : ∃ g E F, s = Binary.pack (e := 8) (f := 23) g E F :=
    ⟨_, _, _, Binary.eq_pack (e := 8) (f := 23) s⟩
  rw [operand602_pack]
  refine (word602_pack g _ (F ++ 0#29)).trans ?_
  rw [storedExp_operandExp602, extract_append_zero]

theorem toNat_storedExp (E : BitVec 11) :
    (storedExp E).toNat = E.toNat / 1024 % 2 * 128 + E.toNat % 128 := by
  have hlow : (E.extractLsb' 0 7).toNat = E.toNat % 128 := by
    rw [BitVec.extractLsb'_toNat, Nat.shiftRight_zero]
  have htop : (BitVec.ofBool (E.getLsbD 10)).toNat = E.toNat / 1024 % 2 := by
    rw [getLsbD_eq_div]
    obtain h | h : E.toNat / 1024 % 2 = 0 ∨ E.toNat / 1024 % 2 = 1 := by omega
    · rw [show E.toNat / 2 ^ 10 % 2 = 0 from h, h]
      rfl
    · rw [show E.toNat / 2 ^ 10 % 2 = 1 from h, h]
      rfl
  rw [storedExp, BitVec.toNat_append, ← Nat.shiftLeft_add_eq_or_of_lt (E.extractLsb' 0 7).isLt,
    Nat.shiftLeft_eq, hlow, htop]

/-- An exponent that the 602 can hold comes back. -/
theorem operandExp602_storedExp {E : BitVec 11} (hlow : 897 ≤ E.toNat) (hhigh : E.toNat ≤ 1150) :
    operandExp602 (storedExp E) = E := by
  have hbit : ∀ j, j = 7 ∨ j = 8 ∨ j = 9 → E.getLsbD j = !E.getLsbD 10 := by
    intro j hj
    rw [getLsbD_eq_div, getLsbD_eq_div, ← decide_not, decide_eq_decide]
    rcases hj with rfl | rfl | rfl <;> omega
  have hstored : ∀ j < 7, (storedExp E).getLsbD j = E.getLsbD j := by
    intro j hj
    rw [storedExp, BitVec.getLsbD_append, if_pos hj, BitVec.getLsbD_extractLsb', decide_eq_true hj,
      Bool.true_and, Nat.zero_add]
  have htop : (storedExp E).getLsbD (7 + 0) = E.getLsbD 10 := by
    rw [storedExp, getLsbD_above]
    cases E.getLsbD 10 <;> rfl
  have hne : storedExp E ≠ 0xff ∧ storedExp E ≠ 0 := by
    have hnat := toNat_storedExp E
    constructor
    · intro heq
      rw [heq, show (0xff : BitVec 8).toNat = 255 from rfl] at hnat
      omega
    · intro heq
      rw [heq, show (0 : BitVec 8).toNat = 0 from rfl] at hnat
      omega
  rw [operandExp602, if_neg hne.1, if_neg hne.2]
  refine BitVec.eq_of_getLsbD_eq fun j hj => ?_
  by_cases hj7 : j < 7
  · rw [BitVec.getLsbD_append, if_pos hj7, BitVec.getLsbD_extractLsb', decide_eq_true hj7,
      Bool.true_and, Nat.zero_add, hstored j hj7]
  · obtain ⟨k, rfl⟩ : ∃ k, j = 7 + k := ⟨j - 7, by omega⟩
    rw [getLsbD_above, show (storedExp E).getLsbD 7 = E.getLsbD 10 from htop]
    obtain rfl | rfl | rfl | rfl : k = 0 ∨ k = 1 ∨ k = 2 ∨ k = 3 := by omega
    · rw [hbit (7 + 0) (by decide)]
      cases E.getLsbD 10 <;> rfl
    · rw [hbit (7 + 1) (by decide)]
      cases E.getLsbD 10 <;> rfl
    · rw [hbit (7 + 2) (by decide)]
      cases E.getLsbD 10 <;> rfl
    · show _ = E.getLsbD 10
      cases E.getLsbD 10 <;> rfl

/-- **A value that fits comes back.** -/
theorem operand602_word602 {d : BitVec 64} (h : fits602 (d.extractLsb' 0 63) = true) :
    operand602 (word602 d) = d := by
  obtain ⟨g, E, F, rfl⟩ : ∃ g E F, d = Binary.pack (e := 11) (f := 52) g E F :=
    ⟨_, _, _, Binary.eq_pack (e := 11) (f := 52) d⟩
  obtain ⟨-, -, hE, -, hF, hF52⟩ := pack_parts g E F
  have hword : operand602 (word602 (Binary.pack g E F)) =
      Binary.pack g (operandExp602 (storedExp E)) (F.extractLsb' 29 23 ++ 0#29) := by
    rw [word602_pack]
    exact operand602_pack g (storedExp E) (F.extractLsb' 29 23)
  rw [hword]
  simp only [fits602, Bool.or_eq_true, Bool.and_eq_true, decide_eq_true_eq] at h
  rcases h with hzero | ⟨⟨hlow, hhigh⟩, hsmall⟩
  · have hE0 : E = 0 := hE.symm.trans (extract_of_zero hzero (show 52 + 11 ≤ 63 by decide))
    have hF0 : F = 0 := hF52.symm.trans (extract_of_zero hzero (show 0 + 52 ≤ 63 by decide))
    rw [hE0, hF0]
    rfl
  · have hexp : ((Binary.pack g E F).extractLsb' 0 63).extractLsb' 52 11 = E :=
      (Binary.extractLsb'_fraction (f := 63) _ (show 52 + 11 ≤ 63 by decide)).trans hE
    have hbelow : F.extractLsb' 0 29 = 0 := by
      have hpart := Binary.extractLsb'_fraction (f := 52) (Binary.pack g E F)
        (show 0 + 29 ≤ 52 by decide)
      rw [Binary.fraction_pack] at hpart
      exact hpart.trans ((Binary.extractLsb'_fraction (f := 63) _
        (show 0 + 29 ≤ 63 by decide)).symm.trans hsmall)
    rw [hexp] at hlow hhigh
    rw [operandExp602_storedExp hlow hhigh]
    exact congrArg (Binary.pack g E) (append_extract hbelow)

/-- The exponent and sign of a widened number. -/
theorem finite_widenSingle (g : Bool) {E : BitVec 8} (F : BitVec 23) (h : E ≠ 0xff) :
    Binary.Finite 11 52 (widenSingle (Binary.pack g E F)) ∧
      Binary.sign 11 52 (widenSingle (Binary.pack g E F)) = g := by
  have hlt : E.toNat < 255 := by
    have hne : E.toNat ≠ 255 := fun heq => h (BitVec.eq_of_toNat_eq heq)
    omega
  have hpack : ∀ (E' : BitVec 11) (F' : BitVec 52), E'.toNat < 2047 →
      Binary.Finite 11 52 (Binary.pack g E' F') ∧ Binary.sign 11 52 (Binary.pack g E' F') = g := by
    refine fun E' F' hE' => ⟨fun hall => ?_, Binary.sign_pack g E' F'⟩
    rw [Binary.biased_pack] at hall
    rw [hall] at hE'
    exact absurd hE' (by decide)
  rw [widenSingle_pack, if_neg h]
  split_ifs with hE hF
  · exact hpack _ (F ++ 0#29) (by rw [toNat_ofNat_exponent (by omega)]; omega)
  · obtain ⟨hlead, -, -⟩ := lead_spec hF
    exact hpack _ _ (by rw [toNat_ofNat_exponent (by omega)]; omega)
  · exact hpack _ _ (by decide)

/-- What the conversions of the single format guarantee. -/
structure SingleFormat : Prop where
  /-- A finite word has the value of its register, and the sign of a zero is kept. -/
  value : ∀ s : BitVec 32, Binary.Finite 8 23 s → Binary.Finite 11 52 (widenSingle s) ∧
    Binary.value 11 52 (widenSingle s) = Binary.value 8 23 s ∧
    Binary.sign 11 52 (widenSingle s) = Binary.sign 8 23 s
  /-- An infinity or a NaN keeps its sign and payload. -/
  payload : ∀ s : BitVec 32, ¬ Binary.Finite 8 23 s →
    widenSingle s = Binary.pack (s.getLsbD 31) 0x7ff#11 (Binary.fraction 23 s ++ 0#29)
  back : ∀ s, narrowSingle (widenSingle s) = s
  store : ∀ d, narrowSingle d = storeSingle d
  word : ∀ s, word602 (operand602 s) = s
  operand : ∀ d : BitVec 64, fits602 (d.extractLsb' 0 63) = true → operand602 (word602 d) = d

/-- **Single-format loads and stores convert exactly.** -/
theorem single_format : SingleFormat := by
  refine ⟨fun s h => ?_, fun s h => ?_, narrowSingle_widenSingle, narrowSingle_eq_storeSingle,
    word602_operand602, fun _ => operand602_word602⟩
  · obtain ⟨g, E, F, rfl⟩ : ∃ g E F, s = Binary.pack (e := 8) (f := 23) g E F :=
      ⟨_, _, _, Binary.eq_pack (e := 8) (f := 23) s⟩
    have hne : E ≠ 0xff := by
      intro heq
      refine h ?_
      rw [Binary.biased_pack, heq]
      rfl
    obtain ⟨hfinite, hsign⟩ := finite_widenSingle g F hne
    exact ⟨hfinite, value_widenSingle g E F hne, hsign.trans (Binary.sign_pack g E F).symm⟩
  · have hall : s.extractLsb' 23 8 = 0xff := not_not.1 h
    rw [widenSingle]
    simp only [hall, if_true]
    rfl

end Fpu
end SloPPC603
