import Mathlib.Tactic.Ring

/-!
# Sums taken in blocks

Two numbers are added block by block in a base `B`, each block passing a carry to the
next.  A fast adder finds the carries first, joining what a span of blocks generates and
propagates to the span below it, and a fast zero test joins spans in the same way.

* `blocks`, `blocks_add` — a number from its blocks, and what the carries make of a sum.
* `ripple`, `Spans`, `Spans.join` — the carries one after another, and spans that double.
* `AllFrom`, `AllFrom.join` — the same for a test of all the blocks from one on.
-/

namespace SloPPC603
namespace Words

/-! ## Blocks -/

/-- The number whose `n` lowest blocks in base `B` are those of `d`. -/
def blocks (B : ℕ) (d : ℕ → ℕ) : ℕ → ℕ
  | 0 => 0
  | n + 1 => blocks B d n + d n * B ^ n

section Blocks

variable {B n : ℕ} {d a b s : ℕ → ℕ} {c : ℕ → Bool}

theorem blocks_lt (hd : ∀ k < n, d k < B) : blocks B d n < B ^ n := by
  induction n with
  | zero => exact Nat.one_pos
  | succ n ih =>
    have hlow := ih fun k hk => hd k (Nat.lt_succ_of_lt hk)
    have hn := hd n (Nat.lt_succ_self n)
    calc blocks B d n + d n * B ^ n < B ^ n + d n * B ^ n := Nat.add_lt_add_right hlow _
      _ = (d n + 1) * B ^ n := by ring
      _ ≤ B * B ^ n := Nat.mul_le_mul_right _ hn
      _ = B ^ (n + 1) := by ring

/-- The blocks of a number. -/
theorem blocks_div_mod (B x : ℕ) : blocks B (fun k => x / B ^ k % B) n = x % B ^ n := by
  induction n with
  | zero => rw [blocks, pow_zero, Nat.mod_one]
  | succ n ih => rw [blocks, ih, pow_succ, Nat.mod_mul, Nat.mul_comm]

/-- **Blocks that pass their carries on add up.** -/
theorem blocks_add (h : ∀ k < n, s k + (c (k + 1)).toNat * B = a k + b k + (c k).toNat) :
    blocks B s n + (c n).toNat * B ^ n = blocks B a n + blocks B b n + (c 0).toNat := by
  induction n with
  | zero => simp [blocks]
  | succ n ih =>
    have hlow := ih fun k hk => h k (Nat.lt_succ_of_lt hk)
    have hn := h n (Nat.lt_succ_self n)
    calc blocks B s n + s n * B ^ n + (c (n + 1)).toNat * B ^ (n + 1)
        = blocks B s n + (s n + (c (n + 1)).toNat * B) * B ^ n := by ring
      _ = blocks B s n + (c n).toNat * B ^ n + (a n + b n) * B ^ n := by rw [hn]; ring
      _ = blocks B a n + blocks B b n + (c 0).toNat + (a n + b n) * B ^ n := by rw [hlow]
      _ = blocks B a n + a n * B ^ n + (blocks B b n + b n * B ^ n) + (c 0).toNat := by ring

/-- Blocks from `j` on that are zero leave the number below them. -/
theorem blocks_of_zero {j : ℕ} (hj : j ≤ n) (hz : ∀ k, j ≤ k → k < n → d k = 0) :
    blocks B d n = blocks B d j := by
  induction n, hj using Nat.le_induction with
  | base => rfl
  | succ n hj ih =>
    rw [blocks, ih fun k hk hkn => hz k hk (Nat.lt_succ_of_lt hkn), hz n hj (Nat.lt_succ_self n),
      Nat.zero_mul, Nat.add_zero]

end Blocks

/-- Two words side by side. -/
theorem toNat_append {m n : ℕ} (x : BitVec m) (y : BitVec n) :
    (x ++ y).toNat = y.toNat + x.toNat * 2 ^ n := by
  rw [BitVec.toNat_append, ← Nat.shiftLeft_add_eq_or_of_lt y.isLt, Nat.shiftLeft_eq, Nat.add_comm]

/-! ## Carries -/

/-- The carry into each block when each hands it to the next. -/
def ripple (p g : ℕ → Bool) (c₀ : Bool) : ℕ → Bool
  | 0 => c₀
  | k + 1 => g k || (p k && ripple p g c₀ k)

section Spans

variable {p g P G : ℕ → Bool} {c₀ : Bool} {m : ℕ}

/-- Of the `m` blocks up to each, or of all there are, `G` says that they generate a carry
and `P` that they propagate one. -/
def Spans (p g : ℕ → Bool) (c₀ : Bool) (m : ℕ) (P G : ℕ → Bool) : Prop :=
  ∀ k, ripple p g c₀ (k + 1) = (G k || (P k && ripple p g c₀ (k + 1 - m)))

theorem spans_one (p g : ℕ → Bool) (c₀ : Bool) : Spans p g c₀ 1 p g := fun _ => rfl

/-- **A span joined to the one below it is twice as long.** -/
theorem Spans.join (h : Spans p g c₀ m P G) :
    Spans p g c₀ (m + m) (fun k => if m ≤ k then P k && P (k - m) else P k)
      (fun k => if m ≤ k then G k || (P k && G (k - m)) else G k) := by
  intro k
  dsimp only
  rw [h k]
  by_cases hk : m ≤ k
  · have hlow := h (k - m)
    rw [show k - m + 1 = k + 1 - m by omega, show k + 1 - m - m = k + 1 - (m + m) by omega] at hlow
    rw [if_pos hk, if_pos hk, hlow]
    cases G k <;> cases P k <;> simp
  · rw [if_neg hk, if_neg hk, show k + 1 - m = 0 by omega, show k + 1 - (m + m) = 0 by omega]

/-- A span that reaches the first block tells the carry. -/
theorem Spans.carry (h : Spans p g c₀ m P G) {k : ℕ} (hk : k < m) :
    ripple p g c₀ (k + 1) = (G k || (P k && c₀)) := by
  rw [h k, show k + 1 - m = 0 by omega]
  rfl

end Spans

/-! ## Tests of all the blocks -/

section AllFrom

variable {z Z : ℕ → Bool} {N m n : ℕ}

/-- `Z` tests the `m` blocks from each, of `N`. -/
def AllFrom (z : ℕ → Bool) (N m : ℕ) (Z : ℕ → Bool) : Prop :=
  ∀ k < N, Z k = true ↔ ∀ j, k ≤ j → j < k + m → j < N → z j = true

theorem allFrom_one (z : ℕ → Bool) (N : ℕ) : AllFrom z N 1 z := by
  intro k hk
  constructor
  · intro h j hj hjk _
    obtain rfl : j = k := by omega
    exact h
  · intro h
    exact h k le_rfl (by omega) hk

/-- **A test joined to the one above it covers twice as many.** -/
theorem AllFrom.join (h : AllFrom z N m Z) (hn : n + m = N) :
    AllFrom z N (m + m) fun k => if k < n then Z k && Z (k + m) else Z k := by
  intro k hk
  dsimp only
  split_ifs with hkn
  · rw [Bool.and_eq_true, h k hk, h (k + m) (by omega)]
    constructor
    · rintro ⟨hlow, hhigh⟩ j hj hjk hjN
      by_cases hlt : j < k + m
      · exact hlow j hj hlt hjN
      · exact hhigh j (by omega) (by omega) hjN
    · intro hall
      exact ⟨fun j hj hjk => hall j hj (by omega), fun j hj hjk => hall j (by omega) (by omega)⟩
  · rw [h k hk]
    constructor
    · intro hall j hj _ hjN
      exact hall j hj (by omega) hjN
    · intro hall j hj hjk
      exact hall j hj (by omega)

end AllFrom

end Words
end SloPPC603
