import Mathlib.Tactic.Ring
import SloPPC603.Lsu.Model
import SloPPC603.Words.SumIs

/-!
# The core's side of an address

The core adds the two address sources of an access at dispatch, or passes the unit the one
that is there as an offset and lets it wait for the other.

* `Slot` — the core's side of a dispatch: `dispatch_ea`, `base_snoop`, `lsu_base`, the
  offset and the alignment check of `ppc_core.sv`.
* `Access`, `access_ea` — the base and the displacement of an access, and their sum.
* `dispatchEa_eq`, `offset_eq` — what the core passes the unit of them.
* `misaligned_eq` — the core's alignment check is the unit's, of the same sum.
-/

namespace SloPPC603
namespace Lsu

open Rename (Operand)

/-! ## The core's side of a dispatch -/

/-- Parameters of the core that decide how an access dispatches. -/
structure Core where
  enableSupervisorExceptions : Bool
  misalignedLeHw : Bool

/-- An access as it dispatches, from either slot.  A source the first slot writes is, in the
second, that slot's new rename entry. -/
structure Slot where
  dq1 : Bool
  uop : Uop
  zeroA : Bool
  useImm : Bool
  imm : BitVec 32
  srcA : Operand
  srcB : Operand
  /-- `dispatch_mem_plain`. -/
  plain : Bool
  /-- `dep_prev` of an address source. -/
  depPrev : Bool
  /-- The first slot writes a register and no base. -/
  prevWrites : Bool
  fp : Bool
  fpDouble : Bool
  le : Bool
  dr : Bool

/-- `sum12_is`. -/
def sum12Is (a b k : BitVec 12) : Bool :=
  a ^^^ b ^^^ k =
    ((a.extractLsb' 0 11 &&& b.extractLsb' 0 11) |||
      ((a.extractLsb' 0 11 ||| b.extractLsb' 0 11) &&& ~~~k.extractLsb' 0 11)) ++ 0#1

/-- `page_end`. -/
def pageEnd (a b : BitVec 12) (word : Bool) : Bool :=
  sum12Is a b 0xfff || (word && (sum12Is a b 0xffe || sum12Is a b 0xffd))

namespace Slot

section Signals

variable (core : Core) (cfg : Config) (k : Slot)

/-- `special_a`, `d1_a`. -/
def specialA : BitVec 32 := if k.zeroA then 0 else k.srcA.value

/-- `special_b`, `d1_b`. -/
def specialB : BitVec 32 := if k.useImm then k.imm else k.srcB.value

/-- `dispatch_ea`, `d1_ea_full`. -/
def dispatchEa : BitVec 32 := k.specialA + k.specialB

/-- `c0_wait_a`, `d1_wait_a`. -/
def waitA : Bool := !k.zeroA && !k.srcA.ready

/-- `c0_wait_b`, `d1_wait_b`. -/
def waitB : Bool := !k.useImm && !k.srcB.ready

/-- `mem_base_ready`. -/
def memBaseReady : Bool := !k.waitA && !k.waitB

/-- `base_snoop`, `d1_base_wait`. -/
def baseSnoop : Bool :=
  if k.dq1 then
    cfg.baseAny && core.enableSupervisorExceptions &&
      (k.uop.specialOp = .load || k.uop.specialOp = .store) && !k.uop.memUpdate &&
      (k.waitA ^^ k.waitB) && (!k.depPrev || k.prevWrites)
  else
    core.enableSupervisorExceptions && k.plain && !k.uop.memUpdate && !k.le &&
      (((cfg.baseSnoop || (cfg.baseWait && !k.srcA.ready)) && k.uop.specialOp = .load &&
          k.useImm && !k.zeroA) ||
        (cfg.baseAny && (k.waitA ^^ k.waitB)))

/-- `c0_offset`, `d1_offset`. -/
def offset : BitVec 32 :=
  if k.useImm then k.imm
  else if k.dq1 then
    if k.waitA then k.srcB.value else if k.zeroA then 0 else k.srcA.value
  else if !k.waitB then k.srcB.value
  else if k.zeroA then 0 else k.srcA.value

/-- `lsu_base`. -/
def lsuBase : Operand :=
  if !k.baseSnoop core cfg then ⟨true, 0, 0, default⟩
  else if k.dq1 then if k.waitA then k.srcA else k.srcB
  else if k.waitB then k.srcB else k.srcA

/-- `dispatch_ea_low`. -/
def dispatchEaLow : BitVec 2 := k.specialA.extractLsb' 0 2 + k.specialB.extractLsb' 0 2

/-- `dispatch_le_natural`, and the check of a build without misaligned accesses. -/
def unnatural : Bool :=
  (k.uop.memSize = .word && k.dispatchEaLow ≠ 0) ||
    (k.uop.memSize = .half && k.dispatchEaLow.getLsbD 0)

/-- `dispatch_misaligned` of a plain access, `d1_misaligned`. -/
def misaligned : Bool :=
  if k.le && !core.misalignedLeHw && k.unnatural then true
  else if !cfg.enableMisalignedAccess then k.unnatural
  else k.uop.memSize ≠ .byte && k.dr &&
    pageEnd (k.specialA.extractLsb' 0 12) (k.specialB.extractLsb' 0 12) (k.uop.memSize = .word)

/-- `dispatch_align`. -/
def align : Bool := !k.fp && !k.dq1 && !k.baseSnoop core cfg && k.misaligned core cfg

end Signals

end Slot

/-! ## An access, its base and its displacement -/

/-- The base and the displacement of an access, and what else decides how it is made. -/
structure Access where
  base : BitVec 32
  displacement : BitVec 32
  size : MemSize
  fp : Bool
  fpDouble : Bool
  le : Bool
  dr : Bool

namespace Access

variable (core : Core) (cfg : Config) (x : Access)

/-- The effective address. -/
def ea : BitVec 32 := x.base + x.displacement

/-- The word after an address. -/
def nextWord (ea : BitVec 32) : BitVec 32 := (ea.extractLsb' 2 30 + 1) ++ ea.extractLsb' 0 2

/-- The address of a beat. -/
def beat (second : Bool) : BitVec 32 := if second then nextWord x.ea else x.ea

/-- The alignment exception of an integer access. -/
def traps : Bool :=
  (x.le && !core.misalignedLeHw && !intFast x.size x.ea) || intTrap cfg x.size x.ea x.dr

/-- The access the unit makes itself. -/
def fast : Bool :=
  if x.fp then x.ea.extractLsb' 0 2 = 0 && !(x.le && x.fpDouble && x.ea.getLsbD 2)
  else intFast x.size x.ea && !x.traps core cfg

end Access

/-- The access of a slot whose registers hold `a` and `b`. -/
def Slot.access (k : Slot) (a b : BitVec 32) : Access where
  base := if k.waitB then b else if k.zeroA then 0 else a
  displacement :=
    if k.waitB then if k.zeroA then 0 else a else if k.useImm then k.imm else b
  size := k.uop.memSize
  fp := k.fp
  fpDouble := k.fpDouble
  le := k.le
  dr := k.dr

/-- The inputs of a dispatch are those of a slot whose registers hold `a` and `b`. -/
structure Formed (core : Core) (cfg : Config) (k : Slot) (a b : BitVec 32) (i : Input) : Prop where
  readA : k.srcA.ready = true → k.srcA.value = a
  readB : k.srcB.ready = true → k.srcB.value = b
  admitted : k.memBaseReady = true ∨ k.baseSnoop core cfg = true
  plain : k.fp = false → k.uop.specialOp = .load ∨ k.uop.specialOp = .store
  /-- An FP access is not plain and not of the second slot. -/
  fpSlot : k.fp = true → k.plain = false ∧ k.dq1 = false
  /-- The second slot takes no access in little-endian mode, and none that is misaligned. -/
  second : k.dq1 = true →
    k.le = false ∧ (k.baseSnoop core cfg = true ∨ k.misaligned core cfg = false)
  ea : k.memBaseReady = true → i.ea = k.dispatchEa
  baseSnoop : i.baseSnoop = k.baseSnoop core cfg
  base : i.base = k.lsuBase core cfg
  offset : i.offset = k.offset
  memSize : i.uop.memSize = k.uop.memSize
  specialOp : k.fp = false →
    i.uop.specialOp = if k.align core cfg then .alignment else k.uop.specialOp
  fp : i.fp = k.fp
  fpDouble : i.fpDouble = k.fpDouble
  le : i.le = k.le
  dr : i.dr = k.dr

/-! ## The core's adders agree -/

section Formation

variable {core : Core} {cfg : Config} {k : Slot} {a b : BitVec 32} {i : Input}

theorem sum12Is_eq (a b k : BitVec 12) : sum12Is a b k = decide (a + b = k) := by
  rw [sum12Is, decide_eq_decide, Words.add_eq_iff]
  have hshift : Words.carries a b k <<< 1 =
      ((a.extractLsb' 0 11 &&& b.extractLsb' 0 11) |||
        ((a.extractLsb' 0 11 ||| b.extractLsb' 0 11) &&& ~~~k.extractLsb' 0 11)) ++ 0#1 := by
    apply BitVec.eq_of_getLsbD_eq
    intro j hj
    rw [BitVec.getLsbD_append]
    cases j with
    | zero => simp
    | succ j =>
      have hlow : j < 11 := by omega
      have hmid : j < 12 := by omega
      simp [Words.carries, hj, hlow, hmid, BitVec.getLsbD_eq_getElem]
  rw [hshift]

/-- The low bits of a sum are those of the low bits' sum. -/
theorem low_add (a b : BitVec 32) {n : ℕ} (hn : n ≤ 32) :
    (a + b).extractLsb' 0 n = a.extractLsb' 0 n + b.extractLsb' 0 n := by
  rw [← BitVec.setWidth_eq_extractLsb' hn, ← BitVec.setWidth_eq_extractLsb' hn,
    ← BitVec.setWidth_eq_extractLsb' hn, BitVec.setWidth_add _ _ hn]

theorem unnatural_eq (k : Slot) : k.unnatural = !intFast k.uop.memSize k.dispatchEa := by
  have hlow : k.dispatchEaLow = k.dispatchEa.extractLsb' 0 2 := (low_add _ _ (by decide)).symm
  have hbit : k.dispatchEaLow.getLsbD 0 = k.dispatchEa.getLsbD 0 := by
    rw [hlow]
    simp
  unfold Slot.unnatural intFast
  rw [hbit, ← hlow]
  have hzero : k.dispatchEaLow = 0 → k.dispatchEa.getLsbD 0 = false := by
    intro h
    rw [← hbit, h]
    rfl
  cases k.uop.memSize with
  | byte => simp
  | half =>
    by_cases h : k.dispatchEaLow = 0
    · rw [hzero h]
      simp [h]
    · cases k.dispatchEa.getLsbD 0 with
      | false => simp
      | true => simpa using h
  | word => simp

/-- A number field is all ones or not, as a number. -/
theorem extractLsb'_eq_iff {x : BitVec 32} {lo n : ℕ} {c : BitVec n} :
    x.extractLsb' lo n = c ↔ x.toNat / 2 ^ lo % 2 ^ n = c.toNat := by
  rw [BitVec.toNat_eq, BitVec.extractLsb'_toNat, Nat.shiftRight_eq_div_pow]

theorem pageEnd_eq (k : Slot) (word : Bool) :
    pageEnd (k.specialA.extractLsb' 0 12) (k.specialB.extractLsb' 0 12) word =
      if word then
        decide (k.dispatchEa.extractLsb' 2 10 = 0x3ff) && decide (k.dispatchEa.extractLsb' 0 2 ≠ 0)
      else decide (k.dispatchEa.extractLsb' 0 12 = 0xfff) := by
  have hsum : k.specialA.extractLsb' 0 12 + k.specialB.extractLsb' 0 12 =
      k.dispatchEa.extractLsb' 0 12 := (low_add _ _ (by decide)).symm
  rw [pageEnd, sum12Is_eq, sum12Is_eq, sum12Is_eq, hsum]
  cases word with
  | false => simp
  | true =>
    rw [Bool.eq_iff_iff]
    simp only [extractLsb'_eq_iff, ne_eq, Bool.true_and, if_true, Bool.or_eq_true,
      Bool.and_eq_true, decide_eq_true_eq]
    simp
    omega

/-- The core's check is the unit's, of the same sum. -/
theorem misaligned_eq {x : Access} (hsize : x.size = k.uop.memSize) (hea : x.ea = k.dispatchEa)
    (hle : x.le = k.le) (hdr : x.dr = k.dr) : k.misaligned core cfg = x.traps core cfg := by
  rw [Slot.misaligned, Access.traps, unnatural_eq, pageEnd_eq, intTrap, hsize, hea, hle, hdr]
  by_cases hnat : (k.le && !core.misalignedLeHw && !intFast k.uop.memSize k.dispatchEa) = true
  · rw [if_pos hnat, hnat, Bool.true_or]
  · rw [if_neg hnat, Bool.eq_false_iff.2 hnat, Bool.false_or]
    by_cases hen : (!cfg.enableMisalignedAccess) = true
    · rw [if_pos hen, if_pos hen]
    · rw [if_neg hen, if_neg hen]
      cases k.uop.memSize <;> rfl

/-- Where both sources are there, the core adds the base and the displacement. -/
theorem dispatchEa_eq (h : Formed core cfg k a b i) (hready : k.memBaseReady = true) :
    k.dispatchEa = (k.access a b).ea := by
  simp only [Slot.memBaseReady, Bool.and_eq_true, Bool.not_eq_true'] at hready
  obtain ⟨ha, hb⟩ := hready
  have hreadA : ¬ k.zeroA = true → k.srcA.ready = true := by
    intro hz
    simpa [Slot.waitA, hz] using ha
  have hreadB : ¬ k.useImm = true → k.srcB.ready = true := by
    intro hu
    simpa [Slot.waitB, hu] using hb
  have hspecialA : k.specialA = if k.zeroA then 0 else a := by
    unfold Slot.specialA
    split_ifs with hz
    · rfl
    · exact h.readA (hreadA hz)
  have hspecialB : k.specialB = if k.useImm then k.imm else b := by
    unfold Slot.specialB
    split_ifs with hu
    · rfl
    · exact h.readB (hreadB hu)
  rw [Slot.dispatchEa, hspecialA, hspecialB, Access.ea, Slot.access, hb]
  rfl

/-- An access of either slot that waits, waits for one source and has the other. -/
theorem wait_spec (hsnoop : k.baseSnoop core cfg = true)
    (hwait : (k.lsuBase core cfg).ready = false) :
    (k.waitB = true ∧ k.waitA = false) ∨ (k.waitB = false ∧ k.waitA = true) := by
  have hxor : (k.waitA ^^ k.waitB) = true →
      (k.waitB = true ∧ k.waitA = false) ∨ (k.waitB = false ∧ k.waitA = true) := by
    cases k.waitA <;> cases k.waitB <;> simp
  rw [Slot.lsuBase, hsnoop] at hwait
  rw [Slot.baseSnoop] at hsnoop
  cases hdq1 : k.dq1 with
  | true =>
    simp only [hdq1, if_true, Bool.and_eq_true] at hsnoop
    exact hxor hsnoop.1.2
  | false =>
    simp only [hdq1, Bool.false_eq_true, if_false, Bool.and_eq_true, Bool.or_eq_true] at hsnoop
    rcases hsnoop.2 with ⟨⟨-, himm⟩, hzero⟩ | ⟨-, hone⟩
    · -- a D-form load waits for rA alone
      have hb : k.waitB = false := by simp [Slot.waitB, himm]
      simp only [hdq1, hb, Bool.not_true, Bool.false_eq_true, if_false] at hwait
      exact Or.inr ⟨hb, by simpa [Slot.waitA, hwait] using hzero⟩
    · exact hxor hone

/-- Where one is missing, the core passes the displacement. -/
theorem offset_eq (h : Formed core cfg k a b i) (hsnoop : k.baseSnoop core cfg = true)
    (hwait : (k.lsuBase core cfg).ready = false) : k.offset = (k.access a b).displacement := by
  rw [Slot.offset, Slot.access]
  rcases wait_spec hsnoop hwait with ⟨hb, ha⟩ | ⟨hb, ha⟩
  · have himm : k.useImm = false := by
      simp only [Slot.waitB, Bool.and_eq_true, Bool.not_eq_true'] at hb
      exact hb.1
    have hreadA : k.zeroA = false → k.srcA.value = a := by
      intro hz
      simp only [Slot.waitA, hz, Bool.not_false, Bool.true_and, Bool.not_eq_false'] at ha
      exact h.readA ha
    rw [himm, ha, hb]
    cases hz : k.zeroA with
    | true => simp
    | false => simp [hreadA hz]
  · have hreadB : k.useImm = false → k.srcB.value = b := by
      intro hu
      simp only [Slot.waitB, hu, Bool.not_false, Bool.true_and, Bool.not_eq_false'] at hb
      exact h.readB hb
    rw [ha, hb]
    cases hu : k.useImm with
    | true => simp
    | false => simp [hreadB hu]

/-- An access whose base is there has both sources. -/
theorem memBaseReady_of_ready (hsnoop : k.baseSnoop core cfg = true)
    (hready : (k.lsuBase core cfg).ready = true) : k.memBaseReady = true := by
  have hA : k.waitA = true → k.srcA.ready = false := by simp [Slot.waitA]
  have hB : k.waitB = true → k.srcB.ready = false := by simp [Slot.waitB]
  rw [Slot.lsuBase, hsnoop] at hready
  rw [Slot.baseSnoop] at hsnoop
  cases hdq1 : k.dq1 with
  | true =>
    simp only [hdq1, if_true, Bool.and_eq_true] at hsnoop hready
    have hone := hsnoop.1.2
    cases ha : k.waitA with
    | true =>
      rw [ha] at hready
      simp [hA ha] at hready
    | false =>
      rw [ha] at hone hready
      simp [hB (by simpa using hone)] at hready
  | false =>
    simp only [hdq1, Bool.false_eq_true, if_false, Bool.not_true] at hready
    cases hb : k.waitB with
    | true =>
      rw [hb] at hready
      simp [hB hb] at hready
    | false =>
      rw [hb] at hready
      have ha : k.waitA = false := by
        by_contra hne
        simp [hA (by simpa using hne)] at hready
      simp [Slot.memBaseReady, ha, hb]

theorem baseAny_of_snoop (hsnoop : k.baseSnoop core cfg = true) : cfg.baseAny = true := by
  rw [Slot.baseSnoop] at hsnoop
  split_ifs at hsnoop
  · simp only [Bool.and_eq_true] at hsnoop
    exact hsnoop.1.1.1.1.1
  · simp only [Bool.and_eq_true, Bool.or_eq_true] at hsnoop
    rcases hsnoop.2 with ⟨⟨⟨h | h, -⟩, -⟩, -⟩ | ⟨h, -⟩
    · simp [Config.baseAny, h]
    · simp [Config.baseAny, h.1]
    · exact h

/-- Only an integer access in big-endian mode waits. -/
theorem plain_of_snoop (h : Formed core cfg k a b i) (hsnoop : k.baseSnoop core cfg = true) :
    k.fp = false ∧ k.le = false := by
  constructor
  · by_contra hfp
    obtain ⟨hplain, hdq1⟩ := h.fpSlot (by simpa using hfp)
    rw [Slot.baseSnoop, hdq1, hplain] at hsnoop
    simp at hsnoop
  · cases hdq1 : k.dq1 with
    | true => exact (h.second hdq1).1
    | false =>
      rw [Slot.baseSnoop, hdq1] at hsnoop
      simp only [Bool.false_eq_true, if_false, Bool.and_eq_true, Bool.not_eq_true'] at hsnoop
      exact hsnoop.1.2

end Formation

end Lsu
end SloPPC603
