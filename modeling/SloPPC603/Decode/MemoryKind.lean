import SloPPC603.Decode.Decoder

/-!
# The kinds of memory access

The decoder reverses no single byte and sign-extends nothing but a halfword: there is no
instruction for either.

* `MemKind`, `memKind_decode` — what the load/store unit is promised of an operation.
-/

namespace SloPPC603
namespace Decode

open Flags (DecodeConfig)

/-- A reversed access is no byte, and a signed one is a halfword that is not reversed. -/
structure MemKind (u : Uop) : Prop where
  reverse : u.memReverse = true → u.memSize ≠ .byte
  signed : u.memSigned = true → u.memSize = .half ∧ u.memReverse = false

section Kinds

variable {cfg : DecodeConfig} {insn : BitVec 32} {u : Uop}

theorem memKind_plain (hreverse : u.memReverse = false) (hsigned : u.memSigned = false) :
    MemKind u where
  reverse h := nomatch (hreverse.symm.trans h)
  signed h := nomatch (hsigned.symm.trans h)

theorem memKind_ite {c : Prop} [Decidable c] {a b : Uop} (ha : MemKind a) (hb : MemKind b) :
    MemKind (if c then a else b) := by
  split_ifs
  · exact ha
  · exact hb

theorem memKind_undecoded : MemKind (undecoded insn) := memKind_plain rfl rfl

/-- `lha`, `lhau` and their indexed forms. -/
theorem memKind_signed (hreverse : u.memReverse = false)
    (hsize : u.memSigned = true → u.memSize = .half) : MemKind u where
  reverse h := nomatch (hreverse.symm.trans h)
  signed h := ⟨hsize h, hreverse⟩

theorem memKind_decodeIndexed : MemKind (decodeIndexed insn) := by
  refine memKind_ite (memKind_signed rfl ?_) memKind_undecoded
  intro h
  simp only [Bool.or_eq_true, decide_eq_true_eq] at h
  rcases h with h | h <;> simp [h]

theorem memKind_decodeDisplacement : MemKind (decodeDisplacement insn) := by
  refine memKind_ite (memKind_signed rfl ?_) memKind_undecoded
  intro h
  simp only [Bool.or_eq_true, decide_eq_true_eq] at h
  rcases h with h | h <;> simp [h]

theorem memKind_decodeFp : MemKind (decodeFp cfg insn) :=
  memKind_ite (memKind_ite (memKind_plain rfl rfl) (memKind_ite (memKind_plain rfl rfl)
    (memKind_plain rfl rfl))) memKind_undecoded

theorem memKind_decodeCache : MemKind (decodeCache cfg insn) := by
  refine memKind_ite ?_ memKind_undecoded
  split
  all_goals first
    | exact memKind_plain rfl rfl
    | exact memKind_ite (memKind_plain rfl rfl) (memKind_plain rfl rfl)

/-- The byte-reversed accesses are halfwords and words. -/
theorem memKind_reversed (hsigned : u.memSigned = false) (hsize : u.memSize ≠ .byte) :
    MemKind u where
  reverse _ := hsize
  signed h := nomatch (hsigned.symm.trans h)

theorem memKind_decode31x : MemKind (decode31x cfg insn) := by
  unfold decode31x
  split
  all_goals first
    | exact memKind_undecoded
    | exact memKind_plain rfl rfl
    | exact memKind_ite (memKind_plain rfl rfl) memKind_undecoded
    | exact memKind_ite (memKind_plain rfl rfl) (memKind_plain rfl rfl)
    | exact memKind_decodeIndexed
    | exact memKind_decodeCache
    | exact memKind_ite (memKind_ite (memKind_plain rfl rfl) memKind_undecoded)
        (memKind_ite (memKind_plain rfl rfl) memKind_undecoded)
    | refine memKind_ite (memKind_reversed rfl ?_) memKind_undecoded
      show (if _ then MemSize.half else .word) ≠ .byte
      split_ifs <;> decide

theorem memKind_decodeArithmetic : MemKind (decodeArithmetic insn) :=
  memKind_ite (memKind_plain rfl rfl) memKind_undecoded

theorem memKind_decode19 : MemKind (decode19 cfg insn) := by
  unfold decode19
  split
  all_goals first
    | exact memKind_undecoded
    | exact memKind_ite (memKind_plain rfl rfl) memKind_undecoded

theorem memKind_decodeForm : MemKind (decodeForm cfg insn) := by
  unfold decodeForm
  split
  all_goals first
    | exact memKind_undecoded
    | exact memKind_plain rfl rfl
    | exact memKind_ite (memKind_plain rfl rfl) memKind_undecoded
    | exact memKind_decodeFp
    | exact memKind_decode19
    | exact memKind_decodeDisplacement
    | exact memKind_ite memKind_decodeArithmetic memKind_decode31x

/-- **Every decoded operation is of a kind there is an instruction for.** -/
theorem memKind_decode (cfg : DecodeConfig) (insn : BitVec 32) : MemKind (decode cfg insn) := by
  have hillegal : MemKind (decodeIllegal cfg insn) :=
    memKind_ite (memKind_plain rfl rfl) memKind_decodeForm
  have hset : MemKind { decodeIllegal cfg insn with alignmentDsisr := alignmentDsisr insn } :=
    ⟨hillegal.reverse, hillegal.signed⟩
  exact memKind_ite hset hillegal

end Kinds

end Decode
end SloPPC603
