import Mathlib.Data.Nat.Init
import Mathlib.Tactic.ByContra
import Mathlib.Tactic.Convert
import Mathlib.Tactic.SplitIfs

/-!
# Rotations, shifts and leading zeros

Facts about the bits of a word that a rotator and a leading-zero counter rest on, for a word
of any width.

* `extractLsb'_double` — a rotation read from the word written twice.
* `rotateLeft_and_eq_zero_iff` — a masked rotation tested on the word before it.
* `shiftLeft_eq_rotate`, `ushiftRight_eq_rotate` — a shift as a masked rotation.
* `zeros`, `zeros_add` — leading zeros, counted in two parts.
* `clz_eq_zeros` — the zeros ahead of a word's first set bit.
-/

namespace SloPPC603
namespace Words

/-! ## Zero words -/

section Zero

variable {w : ℕ} {x y m : BitVec w} {n : ℕ}

/-- A word with a set bit. -/
theorem ne_zero_iff : x ≠ 0 ↔ ∃ i, i < w ∧ x.getLsbD i = true := by
  constructor
  · intro h
    by_contra hno
    apply h
    apply BitVec.eq_of_getLsbD_eq
    intro i hi
    have hbit : x.getLsbD i ≠ true := fun htrue => hno ⟨i, hi, htrue⟩
    simpa using hbit
  · rintro ⟨i, -, hbit⟩ rfl
    simp at hbit

/-- Two words with a common set bit. -/
theorem and_ne_zero_iff : x &&& y ≠ 0 ↔ ∃ i, i < w ∧ x.getLsbD i = true ∧ y.getLsbD i = true := by
  rw [ne_zero_iff]
  simp

/-- The bits of the all-ones word. -/
theorem getLsbD_allOnes (i : ℕ) : (BitVec.allOnes w).getLsbD i = decide (i < w) := by
  simp

end Zero

/-! ## Rotations -/

section Rotate

variable {w : ℕ} {x m : BitVec w} {n : ℕ}

/-- A bit of a rotated word. -/
theorem getLsbD_rotate (hn : n < w) {i : ℕ} (hi : i < w) :
    (x.rotateLeft n).getLsbD i = x.getLsbD (if i < n then w - n + i else i - n) := by
  rw [BitVec.getLsbD_rotateLeft_of_le hn]
  by_cases h : i < n <;> simp [h, hi]

/-- A bit of a word rotated the other way. -/
theorem getLsbD_rotateBack (hn : n < w) {i : ℕ} (hi : i < w) :
    (x.rotateRight n).getLsbD i = x.getLsbD (if i < w - n then n + i else i - (w - n)) := by
  rw [BitVec.getLsbD_rotateRight_of_lt hn]
  by_cases h : i < w - n <;> simp [h, hi]

/-- **A rotation is the upper half of the word written twice and shifted.** -/
theorem extractLsb'_double (hn : n < w) :
    ((x ++ x) <<< n).extractLsb' w w = x.rotateLeft n := by
  apply BitVec.eq_of_getLsbD_eq
  intro i hi
  rw [getLsbD_rotate hn hi, BitVec.getLsbD_extractLsb', BitVec.getLsbD_shiftLeft,
    BitVec.getLsbD_append, decide_eq_true hi, decide_eq_true (by omega : w + i < w + w),
    decide_eq_false (by omega : ¬ w + i < n)]
  by_cases h : i < n
  · rw [if_pos h, if_pos (by omega), show w + i - n = w - n + i by omega]
    rfl
  · rw [if_neg h, if_neg (by omega), show w + i - n - w = i - n by omega]
    rfl

/-- A rotation the other way is the lower half. -/
theorem setWidth_double (hn : n < w) : ((m ++ m) >>> n).setWidth w = m.rotateRight n := by
  apply BitVec.eq_of_getLsbD_eq
  intro i hi
  rw [getLsbD_rotateBack hn hi, BitVec.getLsbD_setWidth, BitVec.getLsbD_ushiftRight,
    BitVec.getLsbD_append, decide_eq_true hi, Bool.true_and]
  by_cases h : i < w - n
  · rw [if_pos h, if_pos (by omega)]
  · rw [if_neg h, if_neg (by omega), show n + i - w = i - (w - n) by omega]

/-- **A masked rotation is not zero where the word and the mask rotated back meet.** -/
theorem rotate_and_ne_zero_iff (hn : n < w) :
    x.rotateLeft n &&& m ≠ 0 ↔ x &&& m.rotateRight n ≠ 0 := by
  rw [and_ne_zero_iff, and_ne_zero_iff]
  constructor
  · rintro ⟨i, hi, hx, hm⟩
    rw [getLsbD_rotate hn hi] at hx
    refine ⟨_, ?_, hx, ?_⟩
    · split_ifs <;> omega
    · rw [getLsbD_rotateBack hn (by split_ifs <;> omega)]
      convert hm using 2
      split_ifs <;> omega
  · rintro ⟨i, hi, hx, hm⟩
    rw [getLsbD_rotateBack hn hi] at hm
    refine ⟨_, ?_, ?_, hm⟩
    · split_ifs <;> omega
    · rw [getLsbD_rotate hn (by split_ifs <;> omega)]
      convert hx using 2
      split_ifs <;> omega

/-- The topmost bit of a rotated word. -/
theorem rotate_top (hn : n < w) :
    (x.rotateLeft n).getLsbD (w - 1) = x.getLsbD (w - 1 - n) := by
  rw [getLsbD_rotate hn (by omega), if_neg (by omega)]

/-! ## Shifts -/

/-- **A left shift is a rotation under the mask of the bits that stay.** -/
theorem rotate_and_left (hn : n < w) :
    x.rotateLeft n &&& BitVec.allOnes w <<< n = x <<< n := by
  apply BitVec.eq_of_getLsbD_eq
  intro i hi
  rw [BitVec.getLsbD_and, getLsbD_rotate hn hi, BitVec.getLsbD_shiftLeft, BitVec.getLsbD_shiftLeft,
    getLsbD_allOnes, decide_eq_true hi, decide_eq_true (by omega : i - n < w)]
  by_cases h : i < n <;> simp [h]

/-- **A right shift is the rotation by what is left of the width, under its mask.** -/
theorem rotate_and_right (hn : n < w) :
    x.rotateLeft ((w - n) % w) &&& BitVec.allOnes w >>> n = x >>> n := by
  apply BitVec.eq_of_getLsbD_eq
  intro i hi
  rw [BitVec.getLsbD_and, getLsbD_rotate (Nat.mod_lt _ (by omega)) hi, BitVec.getLsbD_ushiftRight,
    BitVec.getLsbD_ushiftRight, getLsbD_allOnes]
  by_cases hin : n + i < w
  · rw [decide_eq_true hin, Bool.and_true]
    congr 1
    rcases Nat.eq_zero_or_pos n with rfl | hpos
    · simp
    · rw [Nat.mod_eq_of_lt (by omega)]
      split_ifs <;> omega
  · rw [decide_eq_false hin, Bool.and_false, BitVec.getLsbD_of_ge _ _ (by omega)]

/-- A left shift that leaves nothing. -/
theorem shiftLeft_ne_zero_iff : x <<< n ≠ 0 ↔ x &&& BitVec.allOnes w >>> n ≠ 0 := by
  rw [ne_zero_iff, and_ne_zero_iff]
  constructor
  · rintro ⟨i, hi, hx⟩
    simp only [BitVec.getLsbD_shiftLeft, Bool.and_eq_true, decide_eq_true_eq, Bool.not_eq_true',
      decide_eq_false_iff_not] at hx
    refine ⟨i - n, by omega, hx.2, ?_⟩
    simp only [BitVec.getLsbD_ushiftRight, getLsbD_allOnes, decide_eq_true_eq]
    omega
  · rintro ⟨i, hi, hx, hm⟩
    simp only [BitVec.getLsbD_ushiftRight, getLsbD_allOnes, decide_eq_true_eq] at hm
    refine ⟨n + i, hm, ?_⟩
    simp [hm, hx]

/-- A right shift that leaves nothing. -/
theorem ushiftRight_ne_zero_iff : x >>> n ≠ 0 ↔ x &&& BitVec.allOnes w <<< n ≠ 0 := by
  rw [ne_zero_iff, and_ne_zero_iff]
  constructor
  · rintro ⟨i, hi, hx⟩
    rw [BitVec.getLsbD_ushiftRight] at hx
    have hlt : n + i < w := BitVec.lt_of_getLsbD hx
    refine ⟨n + i, hlt, hx, ?_⟩
    simp [hlt]
  · rintro ⟨i, hi, hx, hm⟩
    simp only [BitVec.getLsbD_shiftLeft, Bool.and_eq_true, Bool.not_eq_true',
      decide_eq_false_iff_not] at hm
    refine ⟨i - n, by omega, ?_⟩
    rw [BitVec.getLsbD_ushiftRight, show n + (i - n) = i by omega]
    exact hx

/-- An arithmetic right shift, its sign filled in under the mask. -/
theorem sshiftRight_eq : x.sshiftRight n =
    x >>> n ||| ((if x.msb then BitVec.allOnes w else 0) &&& ~~~(BitVec.allOnes w >>> n)) := by
  apply BitVec.eq_of_getLsbD_eq
  intro i hi
  rw [BitVec.getLsbD_sshiftRight, BitVec.getLsbD_or, BitVec.getLsbD_and, BitVec.getLsbD_not,
    BitVec.getLsbD_ushiftRight, BitVec.getLsbD_ushiftRight, getLsbD_allOnes,
    decide_eq_true hi, decide_eq_false (Nat.not_le.2 hi)]
  by_cases hin : n + i < w
  · simp [hin]
  · rw [if_neg hin, decide_eq_false hin, BitVec.getLsbD_of_ge x _ (by omega)]
    cases x.msb <;> simp [hi]

/-- An arithmetic right shift of the whole word and more leaves only the sign. -/
theorem sshiftRight_of_le (hn : w ≤ n) :
    x.sshiftRight n = if x.msb then BitVec.allOnes w else 0 := by
  apply BitVec.eq_of_getLsbD_eq
  intro i hi
  rw [BitVec.getLsbD_sshiftRight, if_neg (by omega), decide_eq_false (Nat.not_le.2 hi)]
  cases x.msb <;> simp [hi]

end Rotate

/-! ## Leading zeros -/

/-- The false values from `start` on, at most `len` of them. -/
def zeros (f : ℕ → Bool) (start : ℕ) : ℕ → ℕ
  | 0 => 0
  | len + 1 => if f start then 0 else zeros f (start + 1) len + 1

section Zeros

variable {f : ℕ → Bool} {start len m n : ℕ}

theorem zeros_le (f : ℕ → Bool) (start len : ℕ) : zeros f start len ≤ len := by
  induction len generalizing start with
  | zero => exact Nat.le_refl 0
  | succ len ih =>
    rw [zeros]
    split_ifs
    · exact Nat.zero_le _
    · exact Nat.succ_le_succ (ih (start + 1))

/-- **Leading zeros in two parts.** -/
theorem zeros_add (m : ℕ) : zeros f start (m + n) =
    if zeros f start m = m then m + zeros f (start + m) n else zeros f start m := by
  induction m generalizing start with
  | zero => simp [zeros]
  | succ m ih =>
    rw [Nat.succ_add, zeros, zeros]
    by_cases hf : f start = true
    · simp [hf]
    · rw [if_neg hf, if_neg hf, ih]
      have hle := zeros_le f (start + 1) m
      by_cases hall : zeros f (start + 1) m = m
      · rw [if_pos hall, if_pos (by omega), Nat.add_right_comm, show start + 1 + m = start + (m + 1) by omega]
      · rw [if_neg hall, if_neg (by omega)]

end Zeros

section Clz

variable {w : ℕ} (x : BitVec w)

theorem clzAuxRec_eq_zeros (n : ℕ) (hn : n < w) : x.clzAuxRec n =
    BitVec.ofNat w (w - 1 - n + zeros (fun i => x.getLsbD (w - 1 - i)) (w - 1 - n) (n + 1)) := by
  induction n with
  | zero =>
    rw [BitVec.clzAuxRec_zero, zeros, zeros, show w - 1 - (w - 1 - 0) = 0 by omega]
    split_ifs
    · rfl
    · congr 1
      omega
  | succ n ih =>
    rw [BitVec.clzAuxRec_succ, zeros, ih (by omega),
      show w - 1 - (w - 1 - (n + 1)) = n + 1 by omega]
    split_ifs
    · rfl
    · rw [show w - 1 - (n + 1) + 1 = w - 1 - n by omega]
      congr 1
      omega

/-- **The zeros above a word's topmost set bit.** -/
theorem clz_eq_zeros (hw : 0 < w) :
    x.clz.toNat = zeros (fun i => x.getLsbD (w - 1 - i)) 0 w := by
  have hlt := zeros_le (fun i => x.getLsbD (w - 1 - i)) 0 w
  have hpow : w < 2 ^ w := Nat.lt_two_pow_self
  rw [BitVec.clz, clzAuxRec_eq_zeros x (w - 1) (by omega), Nat.sub_self,
    show w - 1 + 1 = w by omega, BitVec.toNat_ofNat, Nat.zero_add]
  exact Nat.mod_eq_of_lt (by omega)

end Clz

end Words
end SloPPC603
