import SloPPC603.Fpu.Types
import SloPPC603.Words.Fields

/-!
# The FPSCR

How a retired instruction changes the status register: `ppc_fpu_shell_pkg.sv`.  Bits are
numbered from the least significant one, so that FX is bit 31 and RN the bits 1 and 0.

* `normalizeFpscr`, `arithmeticFpscr`, `statusChange` — the functions of the package.
* `numericResult` — the disposition of an arithmetic result.
* `stepFpscr` — the register over the retirement of one instruction.
* `Effect`, `effect_run` — what each step of a sequence does to it.
-/

namespace SloPPC603
namespace Fpu

open Words

/-! ## Results -/

/-- `ppc_fpu_exception_t`. -/
inductive Exception
  | none | illegal | unavailable | alignment | memoryFault | fpEnabled | emulationTrap | privileged
  deriving DecidableEq, Inhabited

/-- `ppc_fpu_result_t`. -/
structure Result where
  tag : CompletionTag := default
  exception : Exception := .none
  ea : BitVec 32 := 0
  faultCode : BitVec 4 := 0
  faultInfo : BitVec 32 := 0
  fprIndex : BitVec 5 := 0
  fprWrite : Bool := false
  fprValue : BitVec 64 := 0
  fprSp : Bool := false
  fprLt : Bool := false
  fpscrWrite : Bool := false
  fpscrValue : BitVec 32 := 0
  crWrite : Bool := false
  crField : BitVec 3 := 0
  crValue : BitVec 4 := 0
  gprUpdate : Bool := false
  gprIndex : BitVec 5 := 0
  gprValue : BitVec 32 := 0
  store : Bool := false

/-- `arith_flags_t`. -/
structure ArithFlags where
  writeResult : Bool := false
  invalid : Invalid := {}
  ox : Bool := false
  ux : Bool := false
  zx : Bool := false
  xx : Bool := false
  fr : Bool := false
  fi : Bool := false
  frfiValid : Bool := false
  fprf : BitVec 5 := 0
  fprfValid : Bool := false
  fpcc : BitVec 4 := 0
  compareValid : Bool := false
  tinyBeforeRound : Bool := false

/-- `flags_of`. -/
def flagsOf (ar : ArithRsp) : ArithFlags where
  writeResult := ar.writeResult
  invalid := ar.invalid
  ox := ar.ox
  ux := ar.ux
  zx := ar.zx
  xx := ar.xx
  fr := ar.fr
  fi := ar.fi
  frfiValid := ar.frfiValid
  fprf := ar.fprf
  fprfValid := ar.fprfValid
  fpcc := ar.fpcc
  compareValid := ar.compareValid
  tinyBeforeRound := ar.tinyBeforeRound

/-- `invalid[i]`. -/
def Invalid.bit (v : Invalid) : ℕ → Bool
  | 0 => v.snan
  | 1 => v.isi
  | 2 => v.idi
  | 3 => v.zdz
  | 4 => v.imz
  | 5 => v.vc
  | 6 => v.soft
  | 7 => v.sqrt
  | 8 => v.cvi
  | _ => false

/-! ## Updates -/

/-- `normalize_fpscr`. -/
def normalizeFpscr (f : BitVec 32) : BitVec 32 :=
  let vx := decide (f.extractLsb' 19 6 ≠ 0) || decide (f.extractLsb' 8 3 ≠ 0)
  let n := setBit f 29 vx
  let n := setBit n 30 ((vx && f.getLsbD 7) || (f.getLsbD 28 && f.getLsbD 6) ||
    (f.getLsbD 27 && f.getLsbD 5) || (f.getLsbD 26 && f.getLsbD 4) ||
    (f.getLsbD 25 && f.getLsbD 3))
  setBit n 11 false

/-- The causes of an arithmetic result ORed in. -/
def raiseCauses (old : BitVec 32) (ar : ArithFlags) : BitVec 32 :=
  let n := [0, 1, 2, 3, 4, 5].foldl
    (fun n i => setBit n (24 - i) (old.getLsbD (24 - i) || ar.invalid.bit i)) old
  let n := [6, 7, 8].foldl
    (fun n i => setBit n (16 - i) (old.getLsbD (16 - i) || ar.invalid.bit i)) n
  let n := setBit n 28 (old.getLsbD 28 || ar.ox)
  let n := setBit n 27 (old.getLsbD 27 || ar.ux)
  let n := setBit n 26 (old.getLsbD 26 || ar.zx)
  setBit n 25 (old.getLsbD 25 || ar.xx)

/-- FR, FI and the result flags. -/
def resultBits (n : BitVec 32) (ar : ArithFlags) : BitVec 32 :=
  let n :=
    if ar.frfiValid then
      let n := setBit (setBit n 18 ar.fr) 17 ar.fi
      setBit n 25 (n.getLsbD 25 || ar.fi)
    else n
  if ar.compareValid then setField n 12 ar.fpcc
  else if ar.fprfValid then setField n 12 ar.fprf
  else n

/-- `arithmetic_fpscr`: sticky causes OR in; FX sets on a newly set cause. -/
def arithmeticFpscr (old : BitVec 32) (ar : ArithFlags) : BitVec 32 :=
  let n := resultBits (raiseCauses old ar) ar
  let changed := decide (n.extractLsb' 19 10 &&& ~~~(old.extractLsb' 19 10) ≠ 0) ||
    decide (n.extractLsb' 8 3 &&& ~~~(old.extractLsb' 8 3) ≠ 0)
  normalizeFpscr (setBit n 31 (old.getLsbD 31 || changed))

/-- `flags_trap`. -/
def flagsTrap (cpu602 : Bool) (ar : ArithFlags) (f : BitVec 32) : Bool :=
  let enabled := (ar.invalid.any && f.getLsbD 7) || (ar.ox && f.getLsbD 6) ||
    (ar.ux && f.getLsbD 5) || (ar.zx && f.getLsbD 4) || (ar.xx && f.getLsbD 3)
  cpu602 && (enabled || (!f.getLsbD 2 && ar.tinyBeforeRound))

/-- `numeric_result`. -/
def numericResult (cpu602 : Bool) (base : Result) (ar : ArithFlags) (value : BitVec 64) (op : Op)
    (rc : Bool) (crField : BitVec 3) (fe0 fe1 : Bool) (old : BitVec 32) : Result :=
  let next := arithmeticFpscr old ar
  if flagsTrap cpu602 ar old then
    { base with
      exception := .emulationTrap, fprWrite := false, fpscrWrite := false, crWrite := false }
  else
    { base with
      exception :=
        if !cpu602 && (fe0 || fe1) && next.getLsbD 30 then .fpEnabled else base.exception
      fprWrite := ar.writeResult
      fprValue := value
      fprSp := cpu602 && op ≠ .fctiwz
      fprLt := cpu602 && op = .fctiwz
      fpscrWrite := true
      fpscrValue := next
      crWrite := ar.compareValid || rc
      crField := if ar.compareValid then crField else 1
      crValue := if ar.compareValid then ar.fpcc else next.extractLsb' 28 4 }

/-- The number of the bit that `mtfsb0` and `mtfsb1` name. -/
def bitOf (insn : BitVec 32) : ℕ := 31 - (insn.extractLsb' 21 5).toNat

/-- `insn[10:1]`: which of the instructions it is. -/
def xo (insn : BitVec 32) : ℕ := (insn.extractLsb' 1 10).toNat

/-- The fields that the mask of `mtfsf` selects, from the operand. -/
def selectFields (old insn : BitVec 32) (b : BitVec 64) (n : ℕ) : BitVec 32 :=
  (List.range n).foldl (fun n i =>
    if insn.getLsbD (24 - i) then setField n (28 - 4 * i) (b.extractLsb' (28 - 4 * i) 4) else n) old

/-- `mtfsb1`, `mtfsb0`, `mtfsfi`, `mtfsf` and `mcrfs`, before the summaries. -/
def statusWork (old insn : BitVec 32) (b : BitVec 64) : BitVec 32 :=
  let bt := (insn.extractLsb' 21 5).toNat
  match xo insn with
  | 38 =>
    if bt ≠ 1 ∧ bt ≠ 2 then
      let n := setBit old (bitOf insn) true
      if !old.getLsbD (bitOf insn) && ((3 ≤ bt && bt ≤ 12) || (21 ≤ bt && bt ≤ 23)) then
        setBit n 31 true
      else n
    else old
  | 70 => if bt ≠ 1 ∧ bt ≠ 2 then setBit old (bitOf insn) false else old
  | 134 => setField old (28 - 4 * (insn.extractLsb' 23 3).toNat) (insn.extractLsb' 12 4)
  | 711 => selectFields old insn b 8
  | 64 =>
    match (insn.extractLsb' 18 3).toNat with
    | 0 => setField old 28 0#4
    | 1 => setField old 24 0#4
    | 2 => setField old 20 0#4
    | 3 => setBit old 19 false
    | 5 => setField old 8 0#3
    | _ => old
  | _ => old

/-- `status_change`. -/
def statusChange (old insn : BitVec 32) (b : BitVec 64) : BitVec 32 :=
  normalizeFpscr (statusWork old insn b)

/-- An arithmetic result and what its disposition reads. -/
structure Numeric where
  base : Result
  flags : ArithFlags
  value : BitVec 64
  op : Op
  rc : Bool
  crField : BitVec 3
  fe0 : Bool
  fe1 : Bool

/-- The result at the head of the queue. -/
def Numeric.head (cpu602 : Bool) (r : Numeric) (f : BitVec 32) : Result :=
  numericResult cpu602 r.base r.flags r.value r.op r.rc r.crField r.fe0 r.fe1 f

/-- A retiring result writes the register. -/
def writesFpscr (head : Result) : Bool :=
  (head.exception = .none || head.exception = .fpEnabled) && head.fpscrWrite

/-- What retires: an arithmetic result, or an instruction that moves to the FPSCR. -/
inductive Retired
  | arith (r : Numeric)
  | status (insn : BitVec 32) (b : BitVec 64)

/-- The register over the retirement of one instruction. -/
def stepFpscr (cpu602 : Bool) (f : BitVec 32) : Retired → BitVec 32
  | .arith r => if writesFpscr (r.head cpu602 f) then (r.head cpu602 f).fpscrValue else f
  | .status insn b => statusChange f insn b

/-! ## Bits of the updates -/

/-- The invalid-operation causes. -/
def invalidBits : List ℕ := [19, 20, 21, 22, 23, 24, 8, 9, 10]

/-- The causes. -/
def causeBits : List ℕ := [25, 26, 27, 28] ++ invalidBits

/-- The causes that a result raises. -/
def ArithFlags.raises (ar : ArithFlags) : ℕ → Bool
  | 28 => ar.ox
  | 27 => ar.ux
  | 26 => ar.zx
  | 25 => ar.xx || (ar.frfiValid && ar.fi)
  | 24 => ar.invalid.snan
  | 23 => ar.invalid.isi
  | 22 => ar.invalid.idi
  | 21 => ar.invalid.zdz
  | 20 => ar.invalid.imz
  | 19 => ar.invalid.vc
  | 10 => ar.invalid.soft
  | 9 => ar.invalid.sqrt
  | 8 => ar.invalid.cvi
  | _ => false

/-- `FEX` of a register. -/
def fexOf (f : BitVec 32) : Bool :=
  (invalidBits.any f.getLsbD && f.getLsbD 7) || (f.getLsbD 28 && f.getLsbD 6) ||
    (f.getLsbD 27 && f.getLsbD 5) || (f.getLsbD 26 && f.getLsbD 4) ||
    (f.getLsbD 25 && f.getLsbD 3)

/-- The summaries of a register are those of its causes, and its reserved bit is clear. -/
structure Normal (f : BitVec 32) : Prop where
  vx : f.getLsbD 29 = invalidBits.any f.getLsbD
  fex : f.getLsbD 30 = fexOf f
  reserved : f.getLsbD 11 = false

theorem getLsbD_normalize (f : BitVec 32) {j : ℕ} (hj : j < 32) :
    (normalizeFpscr f).getLsbD j =
      if j = 11 then false else if j = 30 then fexOf f
      else if j = 29 then invalidBits.any f.getLsbD else f.getLsbD j := by
  have hvx : (decide (f.extractLsb' 19 6 ≠ 0) || decide (f.extractLsb' 8 3 ≠ 0)) =
      invalidBits.any f.getLsbD := by
    rw [decide_extractLsb'_ne_zero, decide_extractLsb'_ne_zero, ← List.any_append]
    rfl
  rw [normalizeFpscr, hvx]
  simp only [getLsbD_setBit _ _ _ hj]
  rfl

theorem normal_normalize (f : BitVec 32) : Normal (normalizeFpscr f) := by
  have hkeep : ∀ j, j < 32 → j ≠ 11 → j ≠ 29 → j ≠ 30 →
      (normalizeFpscr f).getLsbD j = f.getLsbD j := by
    intro j hj h11 h29 h30
    rw [getLsbD_normalize f hj, if_neg h11, if_neg h30, if_neg h29]
  have hinvalid : invalidBits.any (normalizeFpscr f).getLsbD = invalidBits.any f.getLsbD := by
    simp only [invalidBits, List.any_cons, List.any_nil, hkeep, Nat.reduceLT, Nat.reduceEqDiff,
      ne_eq, not_false_eq_true]
  have hfex : fexOf (normalizeFpscr f) = fexOf f := by
    simp only [fexOf, hinvalid, hkeep, Nat.reduceLT, Nat.reduceEqDiff, ne_eq, not_false_eq_true]
  refine ⟨?_, ?_, ?_⟩
  · rw [hinvalid, getLsbD_normalize f (by decide)]
    rfl
  · rw [hfex, getLsbD_normalize f (by decide)]
    rfl
  · rw [getLsbD_normalize f (by decide)]
    rfl

/-! ## Arithmetic results -/

/-- The causes with those of a result ORed in. -/
theorem getLsbD_raiseCauses (old : BitVec 32) (ar : ArithFlags) {j : ℕ} (hj : j < 32) :
    (raiseCauses old ar).getLsbD j =
      if j = 25 then old.getLsbD 25 || ar.xx
      else if j ∈ causeBits then old.getLsbD j || ar.raises j else old.getLsbD j := by
  simp only [raiseCauses, List.foldl, getLsbD_setBit _ _ _ hj]
  by_cases hc : j ∈ causeBits
  · simp only [causeBits, invalidBits, List.cons_append, List.nil_append, List.mem_cons,
      List.not_mem_nil, or_false] at hc
    rcases hc with rfl | rfl | rfl | rfl | rfl | rfl | rfl | rfl | rfl | rfl | rfl | rfl | rfl
    all_goals rfl
  · rw [if_neg hc]
    simp only [causeBits, invalidBits, List.cons_append, List.nil_append, List.mem_cons,
      List.not_mem_nil, or_false, not_or] at hc
    simp only [Nat.reduceSub, hc, if_false]

/-- What FR, FI and the result flags leave alone. -/
theorem getLsbD_resultBits (n : BitVec 32) (ar : ArithFlags) {j : ℕ} (hj : j < 32)
    (hlow : j < 12 ∨ 18 < j) :
    (resultBits n ar).getLsbD j =
      if j = 25 then n.getLsbD 25 || (ar.frfiValid && ar.fi) else n.getLsbD j := by
  have hflags : ∀ v : BitVec 32, (if ar.compareValid then setField v 12 ar.fpcc
      else if ar.fprfValid then setField v 12 ar.fprf else v).getLsbD j = v.getLsbD j := by
    intro v
    split_ifs
    · rw [getLsbD_setField _ _ _ hj, if_neg (by omega)]
    · rw [getLsbD_setField _ _ _ hj, if_neg (by omega)]
    · rfl
  rw [resultBits, hflags]
  cases ar.frfiValid with
  | false =>
    rw [if_neg Bool.false_ne_true, Bool.false_and, Bool.or_false]
    split_ifs with h
    · rw [h]
    · rfl
  | true =>
    have hkeep : ∀ k, k < 32 → k ≠ 17 → k ≠ 18 →
        (setBit (setBit n 18 ar.fr) 17 ar.fi).getLsbD k = n.getLsbD k := by
      intro k hk h17 h18
      rw [getLsbD_setBit _ _ _ hk, if_neg h17, getLsbD_setBit _ _ _ hk, if_neg h18]
    rw [if_pos rfl, getLsbD_setBit _ _ _ hj, hkeep j hj (by omega) (by omega),
      hkeep 25 (by decide) (by decide) (by decide), Bool.true_and]

/-- **A cause after an arithmetic result**, before the summaries. -/
theorem cause_resultBits (old : BitVec 32) (ar : ArithFlags) {j : ℕ} (hj : j ∈ causeBits) :
    (resultBits (raiseCauses old ar) ar).getLsbD j = (old.getLsbD j || ar.raises j) := by
  have hplace : j < 32 ∧ (j < 12 ∨ 18 < j) := by revert j; decide
  rw [getLsbD_resultBits _ _ hplace.1 hplace.2, getLsbD_raiseCauses _ _ (by decide),
    getLsbD_raiseCauses _ _ hplace.1]
  by_cases h : j = 25
  · subst h
    rw [if_pos rfl, if_pos rfl, Bool.or_assoc]
    rfl
  · rw [if_neg h, if_neg h, if_pos hj]

/-- Some cause that was clear is set. -/
def raised (f n : BitVec 32) : Bool := causeBits.any fun j => n.getLsbD j && !f.getLsbD j

theorem raised_congr {f n n' : BitVec 32} (h : ∀ j ∈ causeBits, n.getLsbD j = n'.getLsbD j) :
    raised f n = raised f n' := by
  rw [raised, raised, Bool.eq_iff_iff, List.any_eq_true, List.any_eq_true]
  exact exists_congr fun j => and_congr_right fun hj => by rw [h j hj]

theorem mem_causeBits {j : ℕ} :
    j ∈ causeBits ↔ j ∈ List.range' 19 10 ∨ j ∈ List.range' 8 3 := by
  simp only [causeBits, invalidBits, List.cons_append, List.nil_append, List.mem_cons,
    List.not_mem_nil, or_false, List.mem_range'_1]
  omega

/-- `changed` of `arithmetic_fpscr`. -/
theorem changed_eq_raised (old n : BitVec 32) :
    (decide (n.extractLsb' 19 10 &&& ~~~(old.extractLsb' 19 10) ≠ 0) ||
      decide (n.extractLsb' 8 3 &&& ~~~(old.extractLsb' 8 3) ≠ 0)) = raised old n := by
  have hfield : ∀ lo k, lo + k ≤ 32 → decide (n.extractLsb' lo k &&& ~~~(old.extractLsb' lo k) ≠ 0) =
      (List.range' lo k).any fun j => n.getLsbD j && !old.getLsbD j := by
    intro lo k hk
    have hword : n.extractLsb' lo k &&& ~~~(old.extractLsb' lo k) =
        (n &&& ~~~old).extractLsb' lo k := by
      refine BitVec.eq_of_getLsbD_eq fun i hi => ?_
      have hlt : lo + i < 32 := by omega
      simp [hi, hlt]
    rw [hword, decide_extractLsb'_ne_zero, Bool.eq_iff_iff, List.any_eq_true, List.any_eq_true]
    refine exists_congr fun j => and_congr_right fun hj => ?_
    have hrange := List.mem_range'_1.1 hj
    rw [BitVec.getLsbD_and, BitVec.getLsbD_not, decide_eq_true (by omega), Bool.true_and]
  rw [hfield 19 10 (by decide), hfield 8 3 (by decide), ← List.any_append, raised,
    Bool.eq_iff_iff, List.any_eq_true, List.any_eq_true]
  exact exists_congr fun j => and_congr_left fun _ => by rw [List.mem_append, mem_causeBits]

/-- **The register after an arithmetic result**: causes OR in, FX on a new one. -/
theorem getLsbD_arithmetic (old : BitVec 32) (ar : ArithFlags) {j : ℕ} (hj : j < 32)
    (hlow : j < 12 ∨ 18 < j) (h11 : j ≠ 11) (h29 : j ≠ 29) (h30 : j ≠ 30) :
    (arithmeticFpscr old ar).getLsbD j =
      if j = 31 then old.getLsbD 31 || raised old (arithmeticFpscr old ar)
      else if j ∈ causeBits then old.getLsbD j || ar.raises j else old.getLsbD j := by
  have hbits : ∀ k, k < 32 → k ≠ 11 → k ≠ 29 → k ≠ 30 → (arithmeticFpscr old ar).getLsbD k =
      if k = 31 then old.getLsbD 31 || raised old (resultBits (raiseCauses old ar) ar)
      else (resultBits (raiseCauses old ar) ar).getLsbD k := by
    intro k hk h11 h29 h30
    rw [arithmeticFpscr, changed_eq_raised, getLsbD_normalize _ hk, if_neg h11, if_neg h30,
      if_neg h29, getLsbD_setBit _ _ _ hk]
  have hraised : raised old (arithmeticFpscr old ar) =
      raised old (resultBits (raiseCauses old ar) ar) := by
    refine raised_congr fun k hk => ?_
    have hplace : k < 32 ∧ k ≠ 11 ∧ k ≠ 29 ∧ k ≠ 30 ∧ k ≠ 31 := by revert k; decide
    rw [hbits k hplace.1 hplace.2.1 hplace.2.2.1 hplace.2.2.2.1, if_neg hplace.2.2.2.2]
  rw [hbits j hj h11 h29 h30, hraised]
  refine if_congr Iff.rfl rfl ?_
  by_cases hc : j ∈ causeBits
  · rw [if_pos hc, cause_resultBits _ _ hc]
  · have h25 : j ≠ 25 := fun h => hc (h ▸ by decide)
    rw [if_neg hc, getLsbD_resultBits _ _ hj hlow, if_neg h25, getLsbD_raiseCauses _ _ hj,
      if_neg h25, if_neg hc]

/-! ## Moves to the register -/

/-- The value that an instruction writes to the bit `j`, if it names it. -/
def written (insn : BitVec 32) (b : BitVec 64) (j : ℕ) : Option Bool :=
  let bt := (insn.extractLsb' 21 5).toNat
  let lo := 28 - 4 * (insn.extractLsb' 23 3).toNat
  match xo insn with
  | 38 => if j = bitOf insn ∧ bt ≠ 1 ∧ bt ≠ 2 then some true else none
  | 70 => if j = bitOf insn ∧ bt ≠ 1 ∧ bt ≠ 2 then some false else none
  | 134 => if lo ≤ j ∧ j < lo + 4 then some (insn.getLsbD (12 + (j - lo))) else none
  | 711 => if insn.getLsbD (17 + j / 4) then some (b.getLsbD j) else none
  | 64 =>
    if (j = 31 ∨ j ∈ causeBits) ∧ j / 4 = 7 - (insn.extractLsb' 18 3).toNat then some false
    else none
  | _ => none

theorem getLsbD_selectFields (old insn : BitVec 32) (b : BitVec 64) {n j : ℕ} (hn : n ≤ 8)
    (hj : j < 32) : (selectFields old insn b n).getLsbD j =
      if 8 ≤ n + j / 4 ∧ insn.getLsbD (17 + j / 4) = true then b.getLsbD j else old.getLsbD j := by
  induction n with
  | zero => rw [if_neg (by omega)]; rfl
  | succ n ih =>
    have hstep : selectFields old insn b (n + 1) =
        if insn.getLsbD (24 - n) then
          setField (selectFields old insn b n) (28 - 4 * n) (b.extractLsb' (28 - 4 * n) 4)
        else selectFields old insn b n := by
      rw [selectFields, List.range_succ, List.foldl_append]
      rfl
    have hprev := ih (by omega)
    rw [hstep]
    by_cases hplace : j / 4 = 7 - n
    · have hfm : 24 - n = 17 + j / 4 := by omega
      rw [hfm]
      by_cases hset : insn.getLsbD (17 + j / 4) = true
      · rw [if_pos hset, getLsbD_setField _ _ _ hj, if_pos (by omega), if_pos ⟨by omega, hset⟩,
          BitVec.getLsbD_extractLsb', decide_eq_true (by omega), Bool.true_and,
          Nat.add_sub_cancel' (by omega)]
      · rw [if_neg hset, hprev, if_neg (fun h => hset h.2), if_neg (fun h => hset h.2)]
    · have hsame : (8 ≤ n + 1 + j / 4 ∧ insn.getLsbD (17 + j / 4) = true) ↔
          (8 ≤ n + j / 4 ∧ insn.getLsbD (17 + j / 4) = true) := by
        refine and_congr_left fun _ => ?_
        omega
      rw [if_congr hsame rfl rfl, ← hprev]
      split_ifs
      · rw [getLsbD_setField _ _ _ hj, if_neg (by omega)]
      · rfl

/-- The bits whose setting `mtfsb1` counts are the causes. -/
theorem bitOf_mem_causeBits (insn : BitVec 32) :
    ((3 ≤ (insn.extractLsb' 21 5).toNat && (insn.extractLsb' 21 5).toNat ≤ 12) ||
      (21 ≤ (insn.extractLsb' 21 5).toNat && (insn.extractLsb' 21 5).toNat ≤ 23)) =
      decide (bitOf insn ∈ causeBits) := by
  have hlt := (insn.extractLsb' 21 5).isLt
  rw [Bool.eq_iff_iff, decide_eq_true_eq, mem_causeBits, List.mem_range'_1, List.mem_range'_1,
    bitOf]
  simp only [Bool.or_eq_true, Bool.and_eq_true, decide_eq_true_eq]
  omega

/-- Setting one bit raises it, when it is a cause that was clear. -/
theorem raised_setBit {f n : BitVec 32} {k : ℕ}
    (h : ∀ j ∈ causeBits, n.getLsbD j = if j = k then true else f.getLsbD j) :
    raised f n = (decide (k ∈ causeBits) && !f.getLsbD k) := by
  rw [raised, Bool.eq_iff_iff, List.any_eq_true, Bool.and_eq_true, decide_eq_true_eq]
  constructor
  · rintro ⟨j, hj, hnew⟩
    rw [h j hj] at hnew
    split_ifs at hnew with heq
    · subst heq
      exact ⟨hj, by simpa using hnew⟩
    · rw [Bool.and_not_self] at hnew
      cases hnew
  · rintro ⟨hk, hclear⟩
    exact ⟨k, hk, by rw [h k hk, if_pos rfl, hclear]; rfl⟩

/-- What only keeps or clears causes raises none. -/
theorem raised_eq_false {f n : BitVec 32}
    (h : ∀ j ∈ causeBits, n.getLsbD j = true → f.getLsbD j = true) : raised f n = false := by
  rw [raised, List.any_eq_false]
  intro j hj hnew
  rw [Bool.and_eq_true, Bool.not_eq_true'] at hnew
  rw [h j hj hnew.1] at hnew
  exact absurd hnew.2 (by decide)

/-- The register after `mtfsb1`. -/
theorem getLsbD_mtfsb1 {old insn : BitVec 32} (b : BitVec 64) (hxo : xo insn = 38) {j : ℕ}
    (hj : j < 32) : (statusWork old insn b).getLsbD j =
      (written insn b j).getD
        (if j = 31 then old.getLsbD 31 || raised old (statusWork old insn b)
        else old.getLsbD j) := by
  by_cases hbt : (insn.extractLsb' 21 5).toNat ≠ 1 ∧ (insn.extractLsb' 21 5).toNat ≠ 2
  · obtain ⟨raising, hraising⟩ :
        ∃ r, r = (!old.getLsbD (bitOf insn) && decide (bitOf insn ∈ causeBits)) := ⟨_, rfl⟩
    have hwork : statusWork old insn b =
        if raising then setBit (setBit old (bitOf insn) true) 31 true
        else setBit old (bitOf insn) true := by
      simp only [statusWork, hxo, if_pos hbt, bitOf_mem_causeBits, ← hraising]
    have hbits : ∀ k, k < 32 → (statusWork old insn b).getLsbD k =
        if k = 31 ∧ raising = true then true
        else if k = bitOf insn then true else old.getLsbD k := by
      intro k hk
      rw [hwork]
      cases raising with
      | true =>
        rw [if_pos rfl, getLsbD_setBit _ _ _ hk, getLsbD_setBit _ _ _ hk]
        exact if_congr (by simp) rfl rfl
      | false =>
        rw [if_neg Bool.false_ne_true, getLsbD_setBit _ _ _ hk]
        exact (if_neg fun h => Bool.false_ne_true h.2).symm
    have hraised : raised old (statusWork old insn b) = raising := by
      rw [raised_setBit fun k hk => ?_, hraising, Bool.and_comm]
      have hplace : k < 32 ∧ k ≠ 31 := by revert k; decide
      rw [hbits k hplace.1, if_neg fun h => hplace.2 h.1]
    have hwritten : written insn b j = if j = bitOf insn then some true else none := by
      simp only [written, hxo]
      exact if_congr (and_iff_left hbt) rfl rfl
    rw [hraised, hwritten, hbits j hj]
    by_cases hbit : j = bitOf insn
    · rw [if_pos hbit, if_pos hbit]
      split_ifs <;> rfl
    · rw [if_neg hbit, if_neg hbit, Option.getD_none]
      by_cases h31 : j = 31
      · subst h31
        cases raising <;> simp
      · rw [if_neg h31, if_neg fun h => h31 h.1]
  · have hwork : statusWork old insn b = old := by simp only [statusWork, hxo, if_neg hbt]
    have hwritten : written insn b j = none := by
      simp only [written, hxo]
      exact if_neg fun h => hbt h.2
    rw [hwork, hwritten, raised_eq_false fun _ _ h => h, Bool.or_false, Option.getD_none]
    split_ifs with h31
    · rw [h31]
    · rfl

theorem getD_ite_some {c : Prop} [Decidable c] (v d : Bool) :
    (if c then some v else none).getD d = if c then v else d := by
  split_ifs <;> rfl

/-- The register after `mcrfs`, which clears the causes of one field. -/
theorem getLsbD_mcrfs {old insn : BitVec 32} (b : BitVec 64) (hxo : xo insn = 64) {j : ℕ}
    (hj : j < 32) (h29 : j ≠ 29) (h30 : j ≠ 30) :
    (statusWork old insn b).getLsbD j = (written insn b j).getD (old.getLsbD j) := by
  have hzero : ∀ (lo n : ℕ), (setField old lo 0#n).getLsbD j =
      if lo ≤ j ∧ j < lo + n then false else old.getLsbD j := by
    intro lo n
    rw [getLsbD_setField _ _ _ hj, BitVec.getLsbD_zero]
  have hbit : (setBit old 19 false).getLsbD j = if j = 19 then false else old.getLsbD j :=
    getLsbD_setBit _ _ _ hj
  have hlt : (insn.extractLsb' 18 3).toNat < 8 := (insn.extractLsb' 18 3).isLt
  simp only [statusWork, written, hxo, getD_ite_some, mem_causeBits, List.mem_range'_1]
  generalize (insn.extractLsb' 18 3).toNat = q at hlt ⊢
  obtain rfl | rfl | rfl | rfl | rfl | h : q = 0 ∨ q = 1 ∨ q = 2 ∨ q = 3 ∨ q = 5 ∨
      (q = 4 ∨ q = 6 ∨ q = 7) := by omega
  · exact (hzero 28 4).trans (if_congr (by omega) rfl rfl)
  · exact (hzero 24 4).trans (if_congr (by omega) rfl rfl)
  · exact (hzero 20 4).trans (if_congr (by omega) rfl rfl)
  · exact hbit.trans (if_congr (by omega) rfl rfl)
  · exact (hzero 8 3).trans (if_congr (by omega) rfl rfl)
  · rw [if_neg (by omega)]
    rcases h with rfl | rfl | rfl <;> rfl

/-- The register after another move. -/
theorem getLsbD_statusWork_of_ne {old insn : BitVec 32} (b : BitVec 64) (hxo : xo insn ≠ 38)
    {j : ℕ} (hj : j < 32) (h29 : j ≠ 29) (h30 : j ≠ 30) :
    (statusWork old insn b).getLsbD j = (written insn b j).getD (old.getLsbD j) := by
  by_cases h64 : xo insn = 64
  · exact getLsbD_mcrfs b h64 hj h29 h30
  by_cases h70 : xo insn = 70
  · simp only [statusWork, written, h70, getD_ite_some]
    by_cases hbt : (insn.extractLsb' 21 5).toNat ≠ 1 ∧ (insn.extractLsb' 21 5).toNat ≠ 2
    · rw [if_pos hbt, getLsbD_setBit _ _ _ hj]
      exact if_congr (and_iff_left hbt).symm rfl rfl
    · rw [if_neg hbt, if_neg fun h => hbt h.2]
  by_cases h134 : xo insn = 134
  · simp only [statusWork, written, h134, getD_ite_some, getLsbD_setField _ _ _ hj]
    split_ifs with h
    · rw [BitVec.getLsbD_extractLsb', decide_eq_true (by omega), Bool.true_and]
    · rfl
  by_cases h711 : xo insn = 711
  · simp only [statusWork, written, h711, getD_ite_some,
      getLsbD_selectFields _ _ _ (Nat.le_refl 8) hj]
    exact if_congr (and_iff_right (by omega)) rfl rfl
  unfold statusWork written
  split <;> first | contradiction | rfl

/-- **A move to the register** writes the bits it names, and `mtfsb1` of a cause FX. -/
theorem getLsbD_statusWork (old insn : BitVec 32) (b : BitVec 64) {j : ℕ} (hj : j < 32)
    (h29 : j ≠ 29) (h30 : j ≠ 30) : (statusWork old insn b).getLsbD j =
      (written insn b j).getD
        (if j = 31 ∧ xo insn = 38 then old.getLsbD 31 || raised old (statusWork old insn b)
        else old.getLsbD j) := by
  by_cases hxo : xo insn = 38
  · rw [getLsbD_mtfsb1 b hxo hj]
    exact congrArg _ (if_congr (by simp [hxo]) rfl rfl)
  · rw [getLsbD_statusWork_of_ne b hxo hj h29 h30, if_neg fun h => hxo h.2]

/-! ## Sequences -/

/-- The value written to a bit by name. -/
def Retired.written : Retired → ℕ → Option Bool
  | .arith _ => fun _ => none
  | .status insn b => Fpu.written insn b

/-- FX sums up what is raised, but in `mtfsfi` and `mtfsf`. -/
def Retired.sums : Retired → Bool
  | .arith _ => true
  | .status insn _ => xo insn ≠ 134 && xo insn ≠ 711

/-- What one retirement does to the register. -/
structure Effect (cpu602 : Bool) (f n : BitVec 32) (u : Retired) : Prop where
  normal : Normal n
  /-- A cause stays until it is cleared by name. -/
  sticky : ∀ j ∈ causeBits, f.getLsbD j = true → n.getLsbD j = false → u.written j = some false
  fx : n.getLsbD 31 = (u.written 31).getD (f.getLsbD 31 || (u.sums && raised f n))
  /-- An arithmetic result adds its causes, and changes no enable or rounding mode. -/
  causes : ∀ r, u = .arith r → ∀ j ∈ causeBits,
    n.getLsbD j = (f.getLsbD j || (writesFpscr (r.head cpu602 f) && r.flags.raises j))
  controls : ∀ r, u = .arith r → ∀ j < 8, n.getLsbD j = f.getLsbD j
  /-- A move changes the bits it names and the summaries. -/
  moved : ∀ insn b, u = .status insn b → ∀ j < 32, j ≠ 29 → j ≠ 30 → j ≠ 11 → ∀ v,
    written insn b j = some v → n.getLsbD j = v
  frame : ∀ insn b, u = .status insn b → ∀ j < 32, j ≠ 29 → j ≠ 30 → j ≠ 31 →
    written insn b j = none → n.getLsbD j = f.getLsbD j

variable {cpu602 : Bool} {f : BitVec 32}

theorem head_writes {r : Numeric} (h : writesFpscr (r.head cpu602 f) = true) :
    (r.head cpu602 f).fpscrValue = arithmeticFpscr f r.flags := by
  unfold Numeric.head numericResult at h ⊢
  cases htrap : flagsTrap cpu602 r.flags f with
  | true =>
    simp only [htrap, if_true] at h
    exact absurd h (by rw [writesFpscr, Bool.and_false]; decide)
  | false => rfl

/-- An arithmetic result. -/
theorem effect_arith (hf : Normal f) (r : Numeric) :
    Effect cpu602 f (stepFpscr cpu602 f (.arith r)) (.arith r) := by
  cases hw : writesFpscr (r.head cpu602 f) with
  | false =>
    have hstep : stepFpscr cpu602 f (.arith r) = f := by rw [stepFpscr, hw, if_neg Bool.false_ne_true]
    rw [hstep]
    refine ⟨hf, fun j _ h h' => absurd (h.symm.trans h') (by decide), ?_, ?_,
      fun _ _ _ _ => rfl, ?_, ?_⟩
    · rw [raised_eq_false fun _ _ h => h, Bool.and_false, Bool.or_false]
      rfl
    · rintro r' ⟨rfl⟩ j -
      rw [hw, Bool.false_and, Bool.or_false]
    · rintro _ _ ⟨⟩
    · rintro _ _ ⟨⟩
  | true =>
    have hstep : stepFpscr cpu602 f (.arith r) = arithmeticFpscr f r.flags := by
      rw [stepFpscr, hw, if_pos rfl, head_writes hw]
    have hcause : ∀ j ∈ causeBits, (arithmeticFpscr f r.flags).getLsbD j =
        (f.getLsbD j || r.flags.raises j) := by
      intro j hj
      have hplace : j < 32 ∧ (j < 12 ∨ 18 < j) ∧ j ≠ 11 ∧ j ≠ 29 ∧ j ≠ 30 ∧ j ≠ 31 := by
        revert j; decide
      rw [getLsbD_arithmetic f r.flags hplace.1 hplace.2.1 hplace.2.2.1 hplace.2.2.2.1
        hplace.2.2.2.2.1, if_neg hplace.2.2.2.2.2, if_pos hj]
    rw [hstep]
    refine ⟨normal_normalize _, fun j hj h h' => ?_, ?_, ?_, fun r' _ j hj => ?_, ?_, ?_⟩
    · rw [hcause j hj, h, Bool.true_or] at h'
      cases h'
    · rw [getLsbD_arithmetic f r.flags (by decide) (by decide) (by decide) (by decide) (by decide),
        if_pos rfl]
      rfl
    · rintro r' ⟨rfl⟩ j hj
      rw [hw, Bool.true_and]
      exact hcause j hj
    · have hno : j ∉ causeBits := by
        rw [mem_causeBits, List.mem_range'_1, List.mem_range'_1]
        omega
      rw [getLsbD_arithmetic f r.flags (by omega) (by omega) (by omega) (by omega) (by omega),
        if_neg (by omega), if_neg hno]
    · rintro _ _ ⟨⟩
    · rintro _ _ ⟨⟩

/-- Only `mtfsb1` and the field moves write ones. -/
theorem eq_false_of_written {insn : BitVec 32} {b : BitVec 64} {j : ℕ} {v : Bool}
    (h38 : xo insn ≠ 38) (h134 : xo insn ≠ 134) (h711 : xo insn ≠ 711)
    (h : written insn b j = some v) : v = false := by
  have hfalse : ∀ {c : Prop} [Decidable c], (if c then some false else none) = some v → v = false := by
    intro c _ h
    split_ifs at h with hc
    · exact (Option.some.inj h).symm
  unfold written at h
  split at h <;> first | contradiction | exact hfalse h

/-- A move to the register. -/
theorem effect_status (hf : Normal f) (insn : BitVec 32) (b : BitVec 64) :
    Effect cpu602 f (stepFpscr cpu602 f (.status insn b)) (.status insn b) := by
  have hnormal : Normal (statusChange f insn b) := normal_normalize _
  have hbit : ∀ j, j < 32 → j ≠ 11 → j ≠ 29 → j ≠ 30 → (statusChange f insn b).getLsbD j =
      (written insn b j).getD
        (if j = 31 ∧ xo insn = 38 then f.getLsbD 31 || raised f (statusChange f insn b)
        else f.getLsbD j) := by
    intro j hj h11 h29 h30
    have hraised : raised f (statusChange f insn b) = raised f (statusWork f insn b) := by
      refine raised_congr fun k hk => ?_
      have hplace : k < 32 ∧ k ≠ 11 ∧ k ≠ 29 ∧ k ≠ 30 := by revert k; decide
      rw [statusChange, getLsbD_normalize _ hplace.1, if_neg hplace.2.1, if_neg hplace.2.2.2,
        if_neg hplace.2.2.1]
    rw [hraised, ← getLsbD_statusWork f insn b hj h29 h30, statusChange, getLsbD_normalize _ hj,
      if_neg h11, if_neg h30, if_neg h29]
  have hcause : ∀ j ∈ causeBits,
      (statusChange f insn b).getLsbD j = (written insn b j).getD (f.getLsbD j) := by
    intro j hj
    have hplace : j < 32 ∧ j ≠ 11 ∧ j ≠ 29 ∧ j ≠ 30 ∧ j ≠ 31 := by revert j; decide
    rw [hbit j hplace.1 hplace.2.1 hplace.2.2.1 hplace.2.2.2.1, if_neg fun h => hplace.2.2.2.2 h.1]
  show Effect cpu602 f (statusChange f insn b) _
  refine ⟨hnormal, fun j hj h h' => ?_, ?_, ?_, ?_, ?_, ?_⟩
  · rw [hcause j hj] at h'
    show written insn b j = some false
    cases hw : written insn b j with
    | none =>
      rw [hw, Option.getD_none, h] at h'
      cases h'
    | some v =>
      rw [hw, Option.getD_some] at h'
      rw [h']
  · show _ = (written insn b 31).getD
      (f.getLsbD 31 || ((xo insn ≠ 134 && xo insn ≠ 711) && raised f (statusChange f insn b)))
    rw [hbit 31 (by decide) (by decide) (by decide) (by decide)]
    congr 1
    by_cases h38 : xo insn = 38
    · simp [h38]
    rw [if_neg fun h => h38 h.2]
    by_cases hfield : xo insn = 134 ∨ xo insn = 711
    · rcases hfield with h | h <;> simp [h]
    · have hno : raised f (statusChange f insn b) = false := by
        refine raised_eq_false fun j hj h => ?_
        rw [hcause j hj] at h
        cases hw : written insn b j with
        | none => rwa [hw, Option.getD_none] at h
        | some v =>
          have hv := eq_false_of_written h38 (fun h => hfield (Or.inl h))
            (fun h => hfield (Or.inr h)) hw
          rw [hw, Option.getD_some, hv] at h
          cases h
      rw [hno, Bool.and_false, Bool.or_false]
  · rintro _ ⟨⟩
  · rintro _ ⟨⟩
  · rintro _ _ ⟨rfl, rfl⟩ j hj h29 h30 h11 v hv
    rw [hbit j hj h11 h29 h30, hv, Option.getD_some]
  · rintro _ _ ⟨rfl, rfl⟩ j hj h29 h30 h31 hnone
    by_cases h11 : j = 11
    · rw [h11, hnormal.reserved, hf.reserved]
    · rw [hbit j hj h11 h29 h30, hnone, Option.getD_none, if_neg fun h => h31 h.1]

theorem effect_step (hf : Normal f) (u : Retired) :
    Effect cpu602 f (stepFpscr cpu602 f u) u := by
  cases u with
  | arith r => exact effect_arith hf r
  | status insn b => exact effect_status hf insn b

/-- **Every step of every sequence** of retirements, from the register at reset. -/
theorem effect_run (cpu602 : Bool) (us : List Retired) (u : Retired) :
    Normal (us.foldl (stepFpscr cpu602) 0) ∧
      Effect cpu602 (us.foldl (stepFpscr cpu602) 0)
        (stepFpscr cpu602 (us.foldl (stepFpscr cpu602) 0) u) u := by
  have hreach : ∀ (us : List Retired) f, Normal f → Normal (us.foldl (stepFpscr cpu602) f) := by
    intro us
    induction us with
    | nil => exact fun f hf => hf
    | cons u us ih => exact fun f hf => ih _ (effect_step hf u).normal
  have hreset : Normal 0 := ⟨by decide, by decide, by decide⟩
  exact ⟨hreach us 0 hreset, effect_step (hreach us 0 hreset) u⟩

/-- `mtfsf` of the field that holds ZX raises it and leaves FX clear. -/
theorem mtfsf_leaves_fx : raised 0 (stepFpscr false 0 (.status 0xfc80058e 0x04000000)) = true ∧
    written 0xfc80058e 0x04000000 31 = none ∧
    (stepFpscr false 0 (.status 0xfc80058e 0x04000000)).getLsbD 31 = false :=
  ⟨by decide, by decide, by decide⟩

end Fpu
end SloPPC603
