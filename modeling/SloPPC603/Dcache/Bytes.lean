import Mathlib.Tactic.IntervalCases
import SloPPC603.Dcache.Model

/-!
# The bytes of a double word

A store writes the bytes its byte enables select and leaves the others.  A byte is
named by its lane, lane 0 the least significant.

* `lane`, `lane_mergeBytes` — a merge, byte for byte.
* `mergeBytes_merge` — a store made twice is a store made once.
-/

namespace SloPPC603
namespace Dcache

/-- The byte in a lane of a double word. -/
def lane (k : ℕ) (x : BitVec 64) : BitVec 8 := x.extractLsb' (8 * k) 8

theorem byteMask_getLsbD (be : BitVec 8) {j : ℕ} (hj : j < 64) :
    (byteMask be).getLsbD j = be.getLsbD (j / 8) := by
  have hff : ∀ m < 8, (0xff#8).getLsbD m = true := by decide
  simp only [byteMask, BitVec.getLsbD_append]
  -- one case for each lane, its byte enabled or not
  split_ifs
  all_goals first
    | rw [hff _ (by omega), ← ‹be.getLsbD _ = true›]
      congr 1
      omega
    | rw [BitVec.getLsbD_zero, eq_comm, ← Bool.not_eq_true]
      convert ‹¬ be.getLsbD _ = true› using 3
      omega

theorem mergeBytes_getLsbD (be : BitVec 8) (new old : BitVec 64) {j : ℕ} (hj : j < 64) :
    (mergeBytes be new old).getLsbD j =
      if be.getLsbD (j / 8) then new.getLsbD j else old.getLsbD j := by
  simp only [mergeBytes, BitVec.getLsbD_or, BitVec.getLsbD_and, BitVec.getLsbD_not, hj,
    byteMask_getLsbD be hj, decide_true, Bool.true_and]
  cases be.getLsbD (j / 8) <;> simp

/-- **A merge takes a byte from the store when it is enabled.** -/
theorem lane_mergeBytes (be : BitVec 8) (new old : BitVec 64) {k : ℕ} (hk : k < 8) :
    lane k (mergeBytes be new old) = if be.getLsbD k then lane k new else lane k old := by
  apply BitVec.eq_of_getLsbD_eq
  intro j hj
  have hdiv : (8 * k + j) / 8 = k := by omega
  simp only [lane, BitVec.getLsbD_extractLsb', hj, decide_true, Bool.true_and,
    mergeBytes_getLsbD be new old (show 8 * k + j < 64 by omega), hdiv]
  split_ifs <;> simp [hj]

theorem mergeBytes_merge (be : BitVec 8) (new old : BitVec 64) :
    mergeBytes be new (mergeBytes be new old) = mergeBytes be new old := by
  apply BitVec.eq_of_getLsbD_eq
  intro j hj
  rw [mergeBytes_getLsbD _ _ _ hj, mergeBytes_getLsbD _ _ _ hj]
  split_ifs <;> rfl

/-- No byte enabled: nothing written. -/
theorem mergeBytes_none (new old : BitVec 64) : mergeBytes 0#8 new old = old := by
  apply BitVec.eq_of_getLsbD_eq
  intro j hj
  simp [mergeBytes_getLsbD _ _ _ hj]

/-- Every byte enabled: the word is replaced. -/
theorem mergeBytes_all (new old : BitVec 64) : mergeBytes 0xff#8 new old = new := by
  apply BitVec.eq_of_getLsbD_eq
  intro j hj
  have hff : ∀ m < 8, (0xff#8).getLsbD m = true := by decide
  rw [mergeBytes_getLsbD _ _ _ hj, hff _ (by omega), if_pos rfl]

end Dcache
end SloPPC603
