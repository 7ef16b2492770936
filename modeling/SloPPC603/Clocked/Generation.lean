import Mathlib.Data.List.Basic
import Mathlib.Data.Nat.ModEq

/-!
# Generations of a reused slot

A handle to a slot that is used again and again carries a stamp: the number of
the use, reduced modulo some `W`.  A list of all the handles ever issued, in
order, is `Stamped` when each carries the stamp of its own use of its slot.  A
handle that is presented again later is then told from the handles of the other
uses of its slot as long as fewer than `W` uses lie in between.

* `uses` — how often a slot occurs among some handles.
* `Stamped.snoc` — issuing one more handle.
* `Stamped.eq_of_recent` — equal stamps of one slot, fewer than `W` uses apart,
  are one handle.
-/

namespace SloPPC603
namespace Clocked
namespace Generation

variable {τ α : Type*} [DecidableEq α] {slot : τ → α} {stamp : τ → ℕ} {W : ℕ}

/-- How often the slot `k` is used by the handles `xs`. -/
def uses (slot : τ → α) (k : α) (xs : List τ) : ℕ := xs.countP (fun t => slot t = k)

/-- Each handle carries the number of its own use of its slot, modulo `W`. -/
def Stamped (W : ℕ) (slot : τ → α) (stamp : τ → ℕ) (xs : List τ) : Prop :=
  ∀ a t, xs[a]? = some t → stamp t = uses slot (slot t) (xs.take (a + 1)) % W

theorem uses_append (k : α) (xs ys : List τ) :
    uses slot k (xs ++ ys) = uses slot k xs + uses slot k ys := List.countP_append

theorem uses_singleton (k : α) (t : τ) : uses slot k [t] = if slot t = k then 1 else 0 := by
  by_cases h : slot t = k <;> simp [uses, h]

theorem stamped_nil : Stamped W slot stamp [] := by simp [Stamped]

/-- Issuing the next handle of its slot. -/
theorem Stamped.snoc {xs : List τ} (h : Stamped W slot stamp xs) {t : τ}
    (ht : stamp t = (uses slot (slot t) xs + 1) % W) : Stamped W slot stamp (xs ++ [t]) := by
  intro a u hu
  rcases Nat.lt_trichotomy a xs.length with hlt | heq | hgt
  · rw [List.getElem?_append_left hlt] at hu
    rw [List.take_append_of_le_length (by omega)]
    exact h a u hu
  · obtain rfl := heq
    rw [List.getElem?_append_right le_rfl, Nat.sub_self] at hu
    obtain rfl : t = u := by simpa using hu
    rw [List.take_of_length_le (by simp), uses_append, uses_singleton, if_pos rfl]
    exact ht
  · rw [List.getElem?_eq_none (by simp; omega)] at hu
    cases hu

/-- A handle found among some handles uses its slot there. -/
theorem uses_pos_of_getElem? {xs : List τ} {a : ℕ} {t : τ} (h : xs[a]? = some t) :
    0 < uses slot (slot t) xs :=
  List.countP_pos_iff.2 ⟨t, List.mem_of_getElem? h, by simp⟩

/-- **Equal stamps of one slot, fewer than `W` uses apart, are one handle.** -/
theorem Stamped.eq_of_recent {xs : List τ} (h : Stamped W slot stamp xs) {a b : ℕ} {t u : τ}
    (ha : xs[a]? = some t) (hb : xs[b]? = some u) (hslot : slot t = slot u)
    (hstamp : stamp t = stamp u) (hle : a ≤ b)
    (hrecent : uses slot (slot t) (xs.drop (a + 1)) < W) : a = b := by
  by_contra hne
  obtain ⟨d, rfl⟩ : ∃ d, b = a + 1 + d := ⟨b - (a + 1), by omega⟩
  have hsplit : xs.take (a + 1 + d + 1) =
      xs.take (a + 1) ++ (xs.drop (a + 1)).take (d + 1) := by
    rw [Nat.add_assoc (a + 1), List.take_add]
  have hrest : (xs.drop (a + 1)).take (d + 1) ++ (xs.drop (a + 1)).drop (d + 1) =
      xs.drop (a + 1) := List.take_append_drop _ _
  have hbetween : 0 < uses slot (slot t) ((xs.drop (a + 1)).take (d + 1)) := by
    rw [hslot]
    have hget : ((xs.drop (a + 1)).take (d + 1))[d]? = some u := by
      rw [List.getElem?_take_of_lt (by omega), List.getElem?_drop]
      exact hb
    exact uses_pos_of_getElem? hget
  have hsta := h a t ha
  have hstb := h _ u hb
  rw [← hslot, hsplit, uses_append] at hstb
  rw [← hrest, uses_append] at hrecent
  -- the uses in between are a positive multiple of `W`, and too few for one
  have hmod : (uses slot (slot t) (xs.take (a + 1)) +
      uses slot (slot t) ((xs.drop (a + 1)).take (d + 1))) % W =
        (uses slot (slot t) (xs.take (a + 1)) + 0) % W :=
    (hstb.symm.trans hstamp.symm).trans hsta
  have hzero : uses slot (slot t) ((xs.drop (a + 1)).take (d + 1)) % W = 0 % W :=
    Nat.ModEq.add_left_cancel' _ hmod
  rw [Nat.mod_eq_of_lt (by omega), Nat.zero_mod] at hzero
  omega

end Generation
end Clocked
end SloPPC603
