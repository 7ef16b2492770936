import Mathlib.Data.Set.Function

/-!
# Bytes of a value and bytes of a memory

A value is its bytes, byte 0 the least significant.  A transfer writes some of the bytes of
a value, each at the address a placement gives it, and leaves the rest of the memory.

* `byte`, `eq_of_byte`, `ofBytes` — a value and its bytes.
* `writeBytes`, `eq_writeBytes_iff` — what a transfer leaves.
* `writeBytes_union`, `writeBytes_congr` — a transfer in parts, and under another numbering.
-/

namespace SloPPC603
namespace Words

/-! ## The bytes of a value -/

/-- Byte `k` of a value. -/
def byte {w : ℕ} (k : ℕ) (v : BitVec w) : BitVec 8 := v.extractLsb' (8 * k) 8

section Byte

variable {w n : ℕ}

theorem getLsbD_byte (k : ℕ) (v : BitVec w) {t : ℕ} (ht : t < 8) :
    (byte k v).getLsbD t = v.getLsbD (8 * k + t) := by
  rw [byte, BitVec.getLsbD_extractLsb', decide_eq_true ht, Bool.true_and]

theorem byte_eq_of_getLsbD {u : BitVec w} {w' : ℕ} {v : BitVec w'} {j k : ℕ}
    (h : ∀ t < 8, u.getLsbD (8 * j + t) = v.getLsbD (8 * k + t)) : byte j u = byte k v := by
  apply BitVec.eq_of_getLsbD_eq
  intro t ht
  rw [getLsbD_byte _ _ ht, getLsbD_byte _ _ ht]
  exact h t ht

/-- **A value is its bytes.** -/
theorem eq_of_byte {u v : BitVec w} (hw : w ≤ 8 * n) (h : ∀ k < n, byte k u = byte k v) :
    u = v := by
  apply BitVec.eq_of_getLsbD_eq
  intro j hj
  have hk := congrArg (fun b : BitVec 8 => b.getLsbD (j % 8)) (h (j / 8) (by omega))
  have hlt : j % 8 < 8 := Nat.mod_lt _ (by decide)
  simp only [getLsbD_byte _ _ hlt, Nat.div_add_mod] at hk
  exact hk

theorem byte_zero (k : ℕ) : byte k (0#w) = 0#8 := by
  apply BitVec.eq_of_getLsbD_eq
  intro t ht
  rw [getLsbD_byte _ _ ht, BitVec.getLsbD_zero, BitVec.getLsbD_zero]

theorem byte_of_le (v : BitVec w) {k : ℕ} (h : w ≤ 8 * k) : byte k v = 0#8 := by
  apply BitVec.eq_of_getLsbD_eq
  intro t ht
  rw [getLsbD_byte _ _ ht, BitVec.getLsbD_of_ge _ _ (by omega), BitVec.getLsbD_zero]

theorem byte_setWidth (v : BitVec w) {k m : ℕ} (h : 8 * k + 8 ≤ m) :
    byte k (v.setWidth m) = byte k v := by
  refine byte_eq_of_getLsbD fun t ht => ?_
  rw [BitVec.getLsbD_setWidth, decide_eq_true (by omega), Bool.true_and]

theorem byte_extractLsb' (v : BitVec w) {b m j k : ℕ} (hk : 8 * k + 8 ≤ m) (hj : b + 8 * k = 8 * j) :
    byte k (v.extractLsb' b m) = byte j v := by
  refine byte_eq_of_getLsbD fun t ht => ?_
  rw [BitVec.getLsbD_extractLsb', decide_eq_true (by omega), Bool.true_and, ← Nat.add_assoc, hj]

theorem byte_append_low (u : BitVec n) (v : BitVec w) {k : ℕ} (hk : 8 * k + 8 ≤ w) :
    byte k (u ++ v) = byte k v := by
  refine byte_eq_of_getLsbD fun t ht => ?_
  rw [BitVec.getLsbD_append, if_pos (by omega)]

theorem byte_append_high (u : BitVec n) (v : BitVec w) {j k : ℕ} (hj : 8 * k = w + 8 * j) :
    byte k (u ++ v) = byte j u := by
  refine byte_eq_of_getLsbD fun t ht => ?_
  rw [BitVec.getLsbD_append, if_neg (by omega), hj, Nat.add_assoc, Nat.add_sub_cancel_left]

theorem byte_shiftLeft (v : BitVec w) {b j k : ℕ} (hk : 8 * k + 8 ≤ w) (hj : 8 * k = b + 8 * j) :
    byte k (v <<< b) = byte j v := by
  refine byte_eq_of_getLsbD fun t ht => ?_
  rw [BitVec.getLsbD_shiftLeft, decide_eq_true (by omega), decide_eq_false (by omega), Bool.true_and,
    Bool.not_false, Bool.true_and, hj, Nat.add_assoc, Nat.add_sub_cancel_left]

theorem byte_ushiftRight (v : BitVec w) {b j k : ℕ} (hj : b + 8 * k = 8 * j) :
    byte k (v >>> b) = byte j v := by
  refine byte_eq_of_getLsbD fun t ht => ?_
  rw [BitVec.getLsbD_ushiftRight, ← Nat.add_assoc, hj]

theorem eight_add_mul (n : ℕ) : 8 + 8 * n = 8 * (n + 1) := by omega

/-- The value of the first `n` bytes. -/
def ofBytes (b : ℕ → BitVec 8) : (n : ℕ) → BitVec (8 * n)
  | 0 => 0#0
  | n + 1 => (b n ++ ofBytes b n).cast (eight_add_mul n)

theorem byte_ofBytes (b : ℕ → BitVec 8) {n k : ℕ} (h : k < n) : byte k (ofBytes b n) = b k := by
  induction n with
  | zero => omega
  | succ n ih =>
    apply BitVec.eq_of_getLsbD_eq
    intro t ht
    rw [getLsbD_byte _ _ ht, ofBytes, BitVec.getLsbD_cast, BitVec.getLsbD_append]
    by_cases hk : k = n
    · subst hk
      rw [if_neg (by omega)]
      congr 1
      omega
    · rw [if_pos (by omega), ← getLsbD_byte _ _ ht, ih (by omega)]

theorem ofBytes_congr {b c : ℕ → BitVec 8} (h : ∀ k < n, b k = c k) : ofBytes b n = ofBytes c n :=
  eq_of_byte le_rfl fun k hk => by rw [byte_ofBytes _ hk, byte_ofBytes _ hk, h k hk]

end Byte

/-! ## The bytes of a memory -/

section Memory

variable {ι κ α β : Type*}

/-- A memory `m` after the bytes `b` of `S` are written where `place` puts them. -/
noncomputable def writeBytes (S : Set ι) (place : ι → α) (b : ι → β) (m : α → β) : α → β :=
  Function.extend (S.domRestrict place) (S.domRestrict b) m

variable {S T : Set ι} {place : ι → α} {b : ι → β} {m f : α → β}

theorem writeBytes_place (h : Set.InjOn place S) {i : ι} (hi : i ∈ S) :
    writeBytes S place b m (place i) = b i :=
  (Set.injOn_iff_injective.1 h).extend_apply (S.domRestrict b) m ⟨i, hi⟩

/-- **A transfer leaves every other byte.** -/
theorem writeBytes_other {a : α} (h : ∀ i ∈ S, place i ≠ a) : writeBytes S place b m a = m a :=
  Function.extend_apply' _ _ _ fun ⟨i, hi⟩ => h i.1 i.2 hi

/-- **What a transfer leaves is what holds its bytes and the rest of the memory.** -/
theorem eq_writeBytes_iff (h : Set.InjOn place S) : f = writeBytes S place b m ↔
    (∀ i ∈ S, f (place i) = b i) ∧ ∀ a, (∀ i ∈ S, place i ≠ a) → f a = m a := by
  constructor
  · rintro rfl
    exact ⟨fun i hi => writeBytes_place h hi, fun a ha => writeBytes_other ha⟩
  · rintro ⟨hin, hout⟩
    funext a
    by_cases ha : ∃ i ∈ S, place i = a
    · obtain ⟨i, hi, rfl⟩ := ha
      rw [hin i hi, writeBytes_place h hi]
    · push Not at ha
      rw [hout a ha, writeBytes_other ha]

/-- **A transfer in two parts.** -/
theorem writeBytes_union (h : Set.InjOn place (S ∪ T)) :
    writeBytes (S ∪ T) place b m = writeBytes T place b (writeBytes S place b m) := by
  have hS : Set.InjOn place S := h.mono Set.subset_union_left
  have hT : Set.InjOn place T := h.mono Set.subset_union_right
  symm
  rw [eq_writeBytes_iff h]
  constructor
  · intro i hi
    by_cases hiT : i ∈ T
    · exact writeBytes_place hT hiT
    · rw [writeBytes_other fun j hj heq => hiT ?_]
      · exact writeBytes_place hS (hi.resolve_right hiT)
      · rwa [h (Set.mem_union_right S hj) hi heq] at hj
  · intro a ha
    rw [writeBytes_other fun i hi => ha i (Set.mem_union_right S hi),
      writeBytes_other fun i hi => ha i (Set.mem_union_left T hi)]

/-- **Two numberings of the same bytes write the same.** -/
theorem writeBytes_congr {U : Set κ} {place' : κ → α} {b' : κ → β} (hS : Set.InjOn place S)
    (hU : Set.InjOn place' U) (hto : ∀ i ∈ S, ∃ k ∈ U, place' k = place i ∧ b' k = b i)
    (hfrom : ∀ k ∈ U, ∃ i ∈ S, place i = place' k) :
    writeBytes U place' b' m = writeBytes S place b m := by
  rw [eq_writeBytes_iff hS]
  constructor
  · intro i hi
    obtain ⟨k, hk, hplace, hbyte⟩ := hto i hi
    rw [← hplace, writeBytes_place hU hk, hbyte]
  · intro a ha
    refine writeBytes_other fun k hk heq => ?_
    obtain ⟨i, hi, hplace⟩ := hfrom k hk
    exact ha i hi (hplace.trans heq)

end Memory

end Words
end SloPPC603
