import Mathlib.Data.List.Basic
import Mathlib.Tactic.Ring

/-!
# A circular buffer with binary pointers

The entries of a buffer of `2 ^ w` places whose pointers wrap by themselves.

* `entries` — the entries from the read pointer on.
* `entries_write`, `entries_cons` — one more entry, and one fewer.
-/

namespace SloPPC603
namespace Buffer

variable {w n : ℕ} {α : Type*} (mem : BitVec w → α) (read : BitVec w)

/-- The `n` entries from `read` on. -/
def entries (mem : BitVec w → α) (read : BitVec w) (n : ℕ) : List α :=
  (List.range n).map fun k => mem (read + BitVec.ofNat w k)

@[simp] theorem entries_zero : entries mem read 0 = [] := rfl

@[simp] theorem length_entries : (entries mem read n).length = n := by simp [entries]

/-- The places of a buffer are apart. -/
theorem place_ne {k : ℕ} (hk : k < n) (hn : n < 2 ^ w) :
    read + BitVec.ofNat w k ≠ read + BitVec.ofNat w n := by
  intro heq
  have hsame := congrArg BitVec.toNat ((BitVec.add_right_inj read).1 heq)
  rw [BitVec.toNat_ofNat, BitVec.toNat_ofNat, Nat.mod_eq_of_lt (by omega),
    Nat.mod_eq_of_lt hn] at hsame
  omega

/-- **One more entry**, at the place after the last. -/
theorem entries_write (a : α) (hn : n < 2 ^ w) :
    entries (fun k => if k = read + BitVec.ofNat w n then a else mem k) read (n + 1) =
      entries mem read n ++ [a] := by
  have hkeep : ∀ k ∈ List.range n, read + BitVec.ofNat w k ≠ read + BitVec.ofNat w n :=
    fun k hk => place_ne read (List.mem_range.1 hk) hn
  rw [entries, List.range_succ, List.map_append, List.map_singleton, if_pos rfl, entries]
  congr 1
  exact List.map_congr_left fun k hk => if_neg (hkeep k hk)

/-- **The oldest entry** and the rest. -/
theorem entries_cons : entries mem read (n + 1) = mem read :: entries mem (read + 1) n := by
  have hzero : read + BitVec.ofNat w 0 = read := BitVec.add_zero read
  have hnext : ∀ k, read + BitVec.ofNat w (k + 1) = read + 1 + BitVec.ofNat w k := by
    intro k
    have hone : BitVec.ofNat w (k + 1) = 1 + BitVec.ofNat w k := by
      rw [Nat.add_comm, BitVec.ofNat_add]
      rfl
    rw [hone, BitVec.add_assoc]
  rw [entries, List.range_succ_eq_map, List.map_cons, List.map_map, hzero, entries]
  congr 1
  exact List.map_congr_left fun k _ => congrArg mem (hnext k)

end Buffer
end SloPPC603
