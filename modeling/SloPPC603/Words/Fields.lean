import SloPPC603.Words.Shifts

/-!
# Fields of a word

Assignments to a part of a word, read back bit by bit.

* `setField` — some bits in a row.
* `setBit` — one bit.
-/

namespace SloPPC603
namespace Words

variable {w n : ℕ}

/-- The `n` bits from `lo` on become `f`. -/
def setField (v : BitVec w) (lo : ℕ) (f : BitVec n) : BitVec w :=
  (v &&& ~~~((BitVec.allOnes n).setWidth w <<< lo)) ||| f.setWidth w <<< lo

theorem getLsbD_setField (v : BitVec w) (lo : ℕ) (f : BitVec n) {j : ℕ} (hj : j < w) :
    (setField v lo f).getLsbD j =
      if lo ≤ j ∧ j < lo + n then f.getLsbD (j - lo) else v.getLsbD j := by
  have hlo : j - lo < w := by omega
  simp only [setField, BitVec.getLsbD_or, BitVec.getLsbD_and, BitVec.getLsbD_not,
    BitVec.getLsbD_shiftLeft, BitVec.getLsbD_setWidth, BitVec.getLsbD_allOnes, hj, hlo,
    decide_true, Bool.true_and]
  by_cases hle : lo ≤ j
  · by_cases hlt : j - lo < n
    · rw [if_pos ⟨hle, by omega⟩]
      simp [hlt, Nat.not_lt.2 hle]
    · rw [if_neg (by omega), BitVec.getLsbD_of_ge f _ (Nat.not_lt.1 hlt)]
      simp [hlt]
  · rw [if_neg (fun h => hle h.1)]
    simp [Nat.not_le.1 hle]

/-- The bit `i` becomes `b`. -/
def setBit (v : BitVec w) (i : ℕ) (b : Bool) : BitVec w := setField v i (BitVec.ofBool b)

theorem getLsbD_setBit (v : BitVec w) (i : ℕ) (b : Bool) {j : ℕ} (hj : j < w) :
    (setBit v i b).getLsbD j = if j = i then b else v.getLsbD j := by
  rw [setBit, getLsbD_setField v i _ hj]
  by_cases h : j = i
  · rw [if_pos (by omega), if_pos h, h, Nat.sub_self]
    cases b <;> rfl
  · rw [if_neg (by omega), if_neg h]

/-- A field that is not zero has a bit set. -/
theorem decide_extractLsb'_ne_zero (v : BitVec w) (lo n : ℕ) :
    decide (v.extractLsb' lo n ≠ 0) = (List.range' lo n).any v.getLsbD := by
  rw [Bool.eq_iff_iff, decide_eq_true_eq, ne_zero_iff, List.any_eq_true]
  constructor
  · rintro ⟨i, hi, hbit⟩
    rw [BitVec.getLsbD_extractLsb', decide_eq_true hi, Bool.true_and] at hbit
    exact ⟨lo + i, List.mem_range'_1.2 ⟨Nat.le_add_right lo i, Nat.add_lt_add_left hi lo⟩, hbit⟩
  · rintro ⟨j, hj, hbit⟩
    have hrange := List.mem_range'_1.1 hj
    refine ⟨j - lo, by omega, ?_⟩
    rwa [BitVec.getLsbD_extractLsb', decide_eq_true (by omega), Bool.true_and,
      Nat.add_sub_cancel' hrange.1]

end Words
end SloPPC603
