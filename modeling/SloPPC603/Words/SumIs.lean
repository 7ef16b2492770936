import Mathlib.Data.Nat.Init

/-!
# Comparing a sum without adding

`a + b = k` tested bit by bit: were the sum `k`, the carry into each bit would be what the
bits of `a`, `b` and `k` there say it is, and it would come from the bit below.

* `add_eq_iff` — the test, for words of any width.
-/

namespace SloPPC603
namespace Words

variable {w : ℕ}

/-- The carries out of each bit of `a + b`, were the sum `k`. -/
def carries (a b k : BitVec w) : BitVec w := (a &&& b) ||| ((a ||| b) &&& ~~~k)

/-- Bit by bit, a carry into a sum whose bit is `k` decides the carry out. -/
theorem carries_getLsbD {a b k : BitVec w} {i : ℕ} (hi : i < w) :
    (carries a b k).getLsbD i =
      Bool.atLeastTwo (a.getLsbD i) (b.getLsbD i)
        (a.getLsbD i ^^ b.getLsbD i ^^ k.getLsbD i) := by
  simp only [carries, BitVec.getLsbD_or, BitVec.getLsbD_and, BitVec.getLsbD_not, hi,
    decide_true, Bool.true_and]
  cases a.getLsbD i <;> cases b.getLsbD i <;> cases k.getLsbD i <;> rfl

/-- The carry into each bit of `a + b` is the exclusive or of the three bits there. -/
theorem carry_eq {a b : BitVec w} {i : ℕ} (hi : i < w) :
    BitVec.carry i a b false = (a.getLsbD i ^^ b.getLsbD i ^^ (a + b).getLsbD i) := by
  rw [BitVec.getLsbD_add hi]
  cases a.getLsbD i <;> cases b.getLsbD i <;> simp

/-- **A sum is `k`** exactly when each bit's carry is the one the bit below sends. -/
theorem add_eq_iff (a b k : BitVec w) : a + b = k ↔ a ^^^ b ^^^ k = carries a b k <<< 1 := by
  constructor
  · rintro rfl
    apply BitVec.eq_of_getLsbD_eq
    intro i hi
    rw [BitVec.getLsbD_xor, BitVec.getLsbD_xor, ← carry_eq hi, BitVec.getLsbD_shiftLeft]
    cases i with
    | zero => simp
    | succ i =>
      rw [BitVec.carry_succ, Nat.add_sub_cancel, carries_getLsbD (by omega), ← carry_eq (by omega)]
      simp [hi]
  · intro h
    have hbit : ∀ i < w, (a.getLsbD i ^^ b.getLsbD i ^^ k.getLsbD i) =
        BitVec.carry i a b false := by
      intro i
      induction i with
      | zero =>
        intro hi
        have hzero := congrArg (BitVec.getLsbD · 0) h
        simpa using hzero
      | succ i ih =>
        intro hi
        have hsucc := congrArg (BitVec.getLsbD · (i + 1)) h
        simp only [BitVec.getLsbD_xor, BitVec.getLsbD_shiftLeft, hi, Nat.add_sub_cancel] at hsucc
        rw [carries_getLsbD (by omega), ih (by omega)] at hsucc
        rw [hsucc, BitVec.carry_succ]
        simp
    apply BitVec.eq_of_getLsbD_eq
    intro i hi
    rw [BitVec.getLsbD_add hi, ← hbit i hi]
    cases a.getLsbD i <;> cases b.getLsbD i <;> simp

end Words
end SloPPC603
