import Mathlib.Data.List.Nodup

/-!
# The last write to an index

A table indexed by a key is written by a list of items, each at its own key, and a
later write wins.  What the table then holds at a key is what the last item of
that key wrote.  The same question is asked of a queue: which is the youngest
item of a key.

* `lastAt` — the last item of a key.
* `foldl_update` — a table after a list of writes.
* `lastAt_append`, `lastAt_right`, `lastAt_right_eq_none` — items added behind,
  and items taken from the front.
-/

namespace SloPPC603
namespace Clocked

variable {α κ β : Type*} [DecidableEq κ] {idx : α → κ} {k : κ} {l m : List α} {a : α}

/-- The last item of the list whose key is `k`. -/
def lastAt (idx : α → κ) (k : κ) (l : List α) : Option α := l.reverse.find? (fun a => idx a = k)

@[simp] theorem lastAt_nil : lastAt idx k [] = none := rfl

/-- **A later item of the key wins.** -/
theorem lastAt_append : lastAt idx k (l ++ m) = (lastAt idx k m).or (lastAt idx k l) := by
  rw [lastAt, List.reverse_append, List.find?_append]
  rfl

theorem lastAt_singleton : lastAt idx k [a] = if idx a = k then some a else none := by
  simp [lastAt, List.find?_cons]
  split_ifs <;> simp_all

theorem lastAt_cons :
    lastAt idx k (a :: l) = (lastAt idx k l).or (if idx a = k then some a else none) := by
  rw [← List.singleton_append, lastAt_append, lastAt_singleton]

theorem mem_of_lastAt (h : lastAt idx k l = some a) : a ∈ l := by
  have hmem := List.mem_of_find?_eq_some h
  simpa using hmem

theorem idx_of_lastAt (h : lastAt idx k l = some a) : idx a = k := by
  have hidx := List.find?_some h
  simpa using hidx

theorem lastAt_eq_none_iff : lastAt idx k l = none ↔ ∀ a ∈ l, idx a ≠ k := by
  simp [lastAt]

theorem lastAt_map {γ : Type*} (f : γ → α) (l : List γ) :
    lastAt idx k (l.map f) = (lastAt (fun c => idx (f c)) k l).map f := by
  rw [lastAt, ← List.map_reverse, List.find?_map]
  rfl

/-- **A table after a list of writes.** -/
theorem foldl_update (idx : α → κ) (val : α → β) (f : κ → β) (l : List α) (k : κ) :
    l.foldl (fun f a => Function.update f (idx a) (val a)) f k =
      ((lastAt idx k l).map val).getD (f k) := by
  induction l generalizing f with
  | nil => rfl
  | cons a l ih =>
    rw [List.foldl_cons, ih, lastAt_cons]
    cases hl : lastAt idx k l with
    | some b => rfl
    | none =>
      by_cases hk : idx a = k
      · subst hk
        simp
      · simp [hk, Function.update_of_ne (Ne.symm hk)]

/-- **Items taken from the front**: the last item of a key stays the last one. -/
theorem lastAt_right (hnd : (l ++ m).Nodup) (h : lastAt idx k (l ++ m) = some a)
    (ha : a ∈ m) : lastAt idx k m = some a := by
  rw [lastAt_append] at h
  cases hm : lastAt idx k m with
  | some b =>
    rw [hm, Option.some_or] at h
    exact h
  | none =>
    rw [hm, Option.none_or] at h
    exact absurd ha (List.disjoint_of_nodup_append hnd (mem_of_lastAt h))

/-- If the last item of a key is taken, none of the key is left. -/
theorem lastAt_right_eq_none (hnd : (l ++ m).Nodup) (h : lastAt idx k (l ++ m) = some a)
    (ha : a ∈ l) : lastAt idx k m = none := by
  cases hm : lastAt idx k m with
  | none => rfl
  | some b =>
    rw [lastAt_append, hm, Option.some_or, Option.some_inj] at h
    subst h
    exact absurd (mem_of_lastAt hm) (List.disjoint_of_nodup_append hnd ha)

theorem lastAt_right_of_none (h : lastAt idx k (l ++ m) = none) : lastAt idx k m = none := by
  rw [lastAt_append, Option.or_eq_none_iff] at h
  exact h.1

end Clocked
end SloPPC603
