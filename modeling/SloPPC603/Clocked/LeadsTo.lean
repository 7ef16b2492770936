import Mathlib.Order.Basic
import Mathlib.Data.Nat.Init

/-!
# What leads to what

Progress along a run: whenever `P` holds of an edge, `Q` holds of it or of a later one.

* `LeadsTo` — the relation, which is reflexive and transitive.
* `LeadsTo.of_keep` — what stays until `Q` but cannot stay for ever leads to `Q`.
* `LeadsTo.of_rank` — what comes nearer each time until `Q` leads to `Q`.
* `Recurs` — what happens again and again.
* `exists_settled` — a number that never grows settles.
-/

namespace SloPPC603
namespace Clocked

/-- Whatever has passed, `P` holds then or later. -/
def Recurs (P : ℕ → Prop) : Prop := ∀ n, ∃ m, n ≤ m ∧ P m

/-- A number that never grows from some edge on is the same from some edge on. -/
theorem exists_settled {f : ℕ → ℕ} {n : ℕ} (h : ∀ m, n ≤ m → f (m + 1) ≤ f m) :
    ∃ k, n ≤ k ∧ ∀ m, k ≤ m → f m = f k := by
  have hle : ∀ {a b : ℕ}, n ≤ a → a ≤ b → f b ≤ f a := by
    intro a b ha hab
    induction b, hab using Nat.le_induction with
    | base => exact Nat.le_refl _
    | succ b hab ih => exact Nat.le_trans (h b (Nat.le_trans ha hab)) ih
  -- by the value of `f`: it has settled, or it falls later
  have hall : ∀ v k, n ≤ k → f k = v → ∃ j, n ≤ j ∧ ∀ m, j ≤ m → f m = f j := by
    intro v
    induction v using Nat.strongRecOn with
    | _ v ih =>
      intro k hk hv
      by_cases hsame : ∀ m, k ≤ m → f m = f k
      · exact ⟨k, hk, hsame⟩
      · simp only [not_forall] at hsame
        obtain ⟨m, hm, hne⟩ := hsame
        have hlt : f m < v := by
          have := hle hk hm
          omega
        exact ih (f m) hlt m (Nat.le_trans hk hm) rfl
  exact hall (f n) n (Nat.le_refl n) rfl

/-- Whenever `P` holds, `Q` holds then or later. -/
def LeadsTo (P Q : ℕ → Prop) : Prop := ∀ n, P n → ∃ m, n ≤ m ∧ Q m

namespace LeadsTo

variable {P Q R : ℕ → Prop}

theorem trans (h : LeadsTo P Q) (h' : LeadsTo Q R) : LeadsTo P R := by
  intro n hn
  obtain ⟨m, hm, hq⟩ := h n hn
  obtain ⟨k, hk, hr⟩ := h' m hq
  exact ⟨k, Nat.le_trans hm hk, hr⟩

/-- What stays until `Q`, and cannot stay for ever, leads to `Q`. -/
theorem of_keep (hkeep : ∀ n, P n → P (n + 1) ∨ Q (n + 1))
    (hend : ∀ n, (∀ m, n ≤ m → P m) → ∃ m, n ≤ m ∧ Q m) : LeadsTo P Q := by
  intro n hn
  by_contra hno
  have hstay : ∀ k, P (n + k) := by
    intro k
    induction k with
    | zero => exact hn
    | succ k ih =>
      rcases hkeep (n + k) ih with hp | hq
      · exact hp
      · exact absurd ⟨n + k + 1, by omega, hq⟩ hno
  apply hno
  apply hend n
  intro m hm
  have hp := hstay (m - n)
  rwa [Nat.add_sub_cancel' hm] at hp

/-- What comes nearer each time, until `Q`, leads to `Q`. -/
theorem of_rank (rank : ℕ → ℕ)
    (h : ∀ n, P n → ∃ m, n ≤ m ∧ (Q m ∨ (P m ∧ rank m < rank n))) : LeadsTo P Q := by
  have hall : ∀ k n, rank n = k → P n → ∃ m, n ≤ m ∧ Q m := by
    intro k
    induction k using Nat.strongRecOn with
    | _ k ih =>
      intro n hk hn
      obtain ⟨m, hm, hq | ⟨hp, hlt⟩⟩ := h n hn
      · exact ⟨m, hm, hq⟩
      · obtain ⟨j, hj, hq⟩ := ih (rank m) (by omega) m rfl hp
        exact ⟨j, Nat.le_trans hm hj, hq⟩
  exact fun n hn => hall (rank n) n rfl hn

end LeadsTo

end Clocked
end SloPPC603
