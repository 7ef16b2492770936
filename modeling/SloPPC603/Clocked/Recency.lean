import Mathlib.Data.Set.Function
import Mathlib.Order.Interval.Set.Defs

/-!
# Ranks of recent use

A replacement policy that orders the ways of a set by use keeps a rank for each
way, zero for the last one used.  Using a way moves it to rank zero and moves
those that were before it up by one; the rest stay.

* `Ranked`, `touch` — ranks that are an order, and the use of a way.
* `ranked_touch` — a use leaves the ranks an order.
-/

namespace SloPPC603
namespace Clocked

variable {α : Type*} {ways : Set α} {n : ℕ} {ranks : α → ℕ}

/-- Each of the `n` ranks belongs to one of the ways. -/
def Ranked (ways : Set α) (n : ℕ) (ranks : α → ℕ) : Prop := Set.BijOn ranks ways (Set.Iio n)

/-- The ranks after a use of `way`. -/
def touch [DecidableEq α] (ranks : α → ℕ) (way : α) (w : α) : ℕ :=
  if w = way then 0 else if ranks w < ranks way then ranks w + 1 else ranks w

theorem Ranked.congr {ranks' : α → ℕ} (h : Ranked ways n ranks) (heq : ∀ w ∈ ways, ranks' w = ranks w) :
    Ranked ways n ranks' :=
  Set.BijOn.congr h fun w hw => (heq w hw).symm

/-- **A use of a way leaves the ranks an order.** -/
theorem ranked_touch [DecidableEq α] (h : Ranked ways n ranks) {way : α} (hway : way ∈ ways) :
    Ranked ways n (touch ranks way) := by
  obtain ⟨hmaps, hinj, hsurj⟩ := h
  have hlt : ranks way < n := hmaps hway
  refine ⟨?_, ?_, ?_⟩
  · intro w hw
    have hwlt : ranks w < n := hmaps hw
    simp only [Set.mem_Iio, touch]
    split_ifs <;> omega
  · intro v hv w hw heq
    have hne : ∀ u ∈ ways, u ≠ way → ranks u ≠ ranks way :=
      fun u hu hne he => hne (hinj hu hway he)
    by_cases hv' : v = way
    · by_cases hw' : w = way
      · rw [hv', hw']
      · -- no way but `way` comes to rank zero
        have hw0 := hne w hw hw'
        simp only [touch, hv', hw', if_true, if_false] at heq
        split_ifs at heq
        omega
    · have hv0 := hne v hv hv'
      by_cases hw' : w = way
      · simp only [touch, hv', hw', if_true, if_false] at heq
        split_ifs at heq
        omega
      · have hw0 := hne w hw hw'
        refine hinj hv hw ?_
        simp only [touch, hv', hw', if_false] at heq
        split_ifs at heq <;> omega
  · intro k hk
    rw [Set.mem_Iio] at hk
    by_cases hzero : k = 0
    · exact ⟨way, hway, by simp [touch, hzero]⟩
    · by_cases hle : k ≤ ranks way
      · -- the way that was one rank before
        obtain ⟨w, hw, hrank⟩ := hsurj (show k - 1 ∈ Set.Iio n from by rw [Set.mem_Iio]; omega)
        have hne : w ≠ way := by rintro rfl; omega
        exact ⟨w, hw, by rw [touch, if_neg hne, if_pos (by omega)]; omega⟩
      · obtain ⟨w, hw, hrank⟩ := hsurj (show k ∈ Set.Iio n from hk)
        have hne : w ≠ way := by rintro rfl; omega
        exact ⟨w, hw, by rw [touch, if_neg hne, if_neg (by omega)]; exact hrank⟩

end Clocked
end SloPPC603
