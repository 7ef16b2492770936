import SloPPC603.Pkg

/-!
# The flag fields of a decoded instruction

The part of `ppc_decode.sv` that says which flags an instruction reads and
writes, and the class (`special_op`) that decides how it dispatches.

* `decode` — the fields of a word.
* `Disciplined`, `decode_disciplined` — what every decoded word promises:
  diagnostics and branches touch no flag, an FP form writes a CR field at most,
  and an integer form that writes a CR field or OV reads SO.
-/

namespace SloPPC603
namespace Flags

/-! ## Decoded operations -/

/-- `special_op_t`. -/
inductive SpecialOp
  | none | b | bc | bclr | bcctr | mfspr | mtspr | load | store | mfcr | mtcrf | crLogic | mcrf
  | mcrxr | sc | rfi | programIllegal | programPriv | mfmsr | isync | sync | eieio | alignment
  | isi | mtmsr | mfsr | mtsr | tlbie | tlbld | tlbli | tlbsync | icbi | trap | fpu
  | fpUnavailable | emulationTrap | fpuEmulate | esa | dsa | mfrom | fpEnabled
  deriving DecidableEq, Repr, Inhabited

/-- `carry_in_t`: what the adder of the integer unit takes as its carry. -/
inductive CarryIn
  | zero | one | ca
  deriving DecidableEq, Repr, Inhabited

/-- The fields of `uop_t` that the flag logic and its dispatch rules read. -/
structure Uop where
  illegal : Bool := false
  specialOp : SpecialOp := .none
  spr : BitVec 10 := 0
  memConditional : Bool := false
  carryIn : CarryIn := .zero
  needsFlags : Bool := false
  readCa : Bool := false
  readSo : Bool := false
  writeXer : Bool := false
  writeCa : Bool := false
  writeOvSo : Bool := false
  writeCrField : Bool := false
  crField : BitVec 3 := 0
  writeCrFields : Bool := false
  crMask : BitVec 8 := 0
  writeCrBit : Bool := false
  crBit : BitVec 5 := 0
  deriving DecidableEq, Repr

/-- The part the build models and the features it enables. -/
structure DecodeConfig where
  enableSupervisorExceptions : Bool
  enableLiveContext : Bool
  enableTimers : Bool
  enableRuntimeBat : Bool
  enableSegmentRegisters : Bool
  enableTlbInvalidate : Bool
  enableTlbLoad : Bool
  enableSdr1 : Bool
  enableTlbMissExceptions : Bool
  enableCacheInstructions : Bool
  enableDataCache : Bool
  enableByteReverse : Bool
  enableMultipleString : Bool
  enableReservation : Bool
  enableDebugExceptions : Bool
  enableFullDecode : Bool
  enableFpu : Bool
  hasHid1 : Bool
  hasEar : Bool
  stringEmulationTrap : Bool
  has602 : Bool
  noFpu : Bool
  deriving DecidableEq, Repr

/-! ## Fields of a word -/

section Fields

variable (insn : BitVec 32)

/-- The primary opcode. -/
def primary : ℕ := (insn.extractLsb' 26 6).toNat

/-- The ten-bit extended opcode. -/
def xo : ℕ := (insn.extractLsb' 1 10).toNat

/-- The nine-bit extended opcode of the XO forms. -/
def xo9 : ℕ := (insn.extractLsb' 1 9).toNat

/-- Bits `lo` to `lo + w - 1`, as a number. -/
def bits (lo w : ℕ) : ℕ := (insn.extractLsb' lo w).toNat

/-- Bit `k`. -/
def bit (k : ℕ) : Bool := insn.getLsbD k

/-- An SPR selector, halves exchanged. -/
def selector : BitVec 10 := insn.extractLsb' 11 5 ++ insn.extractLsb' 16 5

end Fields

/-- An operation the decoder leaves illegal. -/
def undecoded : Uop := { illegal := true }

/-- An operation of the integer unit that touches no flag. -/
def integer : Uop := {}

/-- An operation of a class of its own that touches no flag. -/
def special (op : SpecialOp) : Uop := { specialOp := op }

/-- An integer operation with a record form: `rc` writes CR0. -/
def recordForm (rc : Bool) : Uop := { readSo := rc, needsFlags := rc, writeCrField := rc }

/-- `valid_bo`. -/
def validBo (bo : ℕ) : Bool := bo < 6 || (8 ≤ bo && bo < 14) || (16 ≤ bo && bo < 21)

/-- `fp_a_form`. -/
def fpAForm (cfg : DecodeConfig) (op xo : ℕ) : Bool :=
  match xo with
  | 22 => cfg.noFpu
  | 18 | 20 | 21 | 25 | 28 | 29 | 30 | 31 => true
  | 24 => op = 59
  | 23 | 26 => op = 63
  | _ => false

/-- `fp_602_emulated`. -/
def fp602Emulated (op xo : ℕ) : Bool :=
  op = 63 && ((0xf2340000#32).getLsbD (xo % 32) || xo = 14)

/-- `fp_x_form`. -/
def fpXForm (xo : ℕ) : Bool :=
  [0, 12, 14, 15, 32, 38, 40, 64, 70, 72, 134, 136, 264, 583, 711].contains xo

/-- `selector_supported`. -/
def selectorSupported (cfg : DecodeConfig) (readForm : Bool) (sel : ℕ) : Bool :=
  sel = 8 || sel = 9 ||
  (cfg.enableSupervisorExceptions &&
    (sel = 1 || sel = 18 || sel = 19 || sel = 26 || sel = 27 || (272 ≤ sel && sel ≤ 275))) ||
  (cfg.enableTimers &&
    (sel = 22 || (readForm && (sel = 268 || sel = 269)) ||
      (!readForm && (sel = 284 || sel = 285)))) ||
  (cfg.enableSdr1 && sel = 25) ||
  (cfg.enableRuntimeBat && 528 ≤ sel && sel ≤ 543) ||
  (cfg.enableTlbMissExceptions && readForm &&
    (sel = 976 || sel = 978 || sel = 979 || sel = 980)) ||
  (cfg.enableTlbLoad && (sel = 977 || sel = 981 || sel = 982)) ||
  (cfg.enableDebugExceptions && sel = 1010) ||
  (cfg.enableFullDecode &&
    (sel = 1008 || (cfg.hasHid1 && sel = 1009) || (cfg.hasEar && sel = 282) ||
      (readForm && sel = 287))) ||
  (cfg.enableFullDecode && cfg.has602 &&
    (sel = 984 || sel = 986 || sel = 987 || sel = 990 || sel = 991 || sel = 1021 || sel = 1022))

/-! ## The decoder -/

section Decode

variable (cfg : DecodeConfig) (insn : BitVec 32)

/-- Primary opcode 59 or 63: FP arithmetic, moves and FPSCR forms. -/
def decodeFp : Uop :=
  if cfg.enableFullDecode && (fpAForm cfg (primary insn) (bits insn 1 5) ||
      (primary insn = 63 && fpXForm (xo insn))) then
    let op := if cfg.has602 && !cfg.enableFpu && fp602Emulated (primary insn) (xo insn) then
      SpecialOp.fpuEmulate else SpecialOp.fpu
    -- fcmpu, fcmpo and mcrfs write crfD; record forms write CR1.
    if cfg.enableFpu && primary insn = 63 && (xo insn = 0 || xo insn = 32 || xo insn = 64) then
      { specialOp := op, writeCrField := true, crField := insn.extractLsb' 23 3 }
    else if cfg.enableFpu && bit insn 0 then
      { specialOp := op, writeCrField := true, crField := 1 }
    else { specialOp := op }
  else undecoded

/-- Primary opcode 19: CR moves and logic, branches to a register and
serializing forms. -/
def decode19 : Uop :=
  match xo insn with
  | 0 =>
    if !bit insn 0 && bits insn 21 2 = 0 && bits insn 16 2 = 0 && bits insn 11 5 = 0 then
      { specialOp := .mcrf, needsFlags := true, writeCrField := true
        crField := insn.extractLsb' 23 3 }
    else undecoded
  | 16 => if bits insn 11 5 = 0 && validBo (bits insn 21 5) then special .bclr else undecoded
  | 528 =>
    if bits insn 11 5 = 0 && validBo (bits insn 21 5) && bit insn 23 then special .bcctr
    else undecoded
  | 50 =>
    if cfg.enableSupervisorExceptions && insn = 0x4c000064#32 then special .rfi else undecoded
  | 150 =>
    if cfg.enableSupervisorExceptions && insn = 0x4c00012c#32 then special .isync else undecoded
  | 257 | 129 | 289 | 225 | 33 | 449 | 417 | 193 =>
    if !bit insn 0 then
      { specialOp := .crLogic, needsFlags := true, writeCrBit := true
        crBit := insn.extractLsb' 21 5 }
    else undecoded
  | _ => undecoded

/-- The XO-form arithmetic of primary opcode 31 the decoder knows. -/
def arithmeticXo (x : ℕ) : Bool :=
  [266, 10, 138, 234, 202, 40, 104, 8, 136, 232, 200, 235, 459, 491].contains x

/-- The XO forms with one source register: their rB field is zero. -/
def unaryXo (x : ℕ) : Bool := [234, 202, 104, 232, 200].contains x

/-- The extended forms, which add CA. -/
def extendedXo (x : ℕ) : Bool := [138, 136, 232, 200, 234, 202].contains x

/-- The forms that add the complement of rA. -/
def invertingXo (x : ℕ) : Bool := [40, 104, 8, 136, 232, 200].contains x

/-- The forms that write CA. -/
def carryingXo (x : ℕ) : Bool := [8, 136, 232, 200, 10, 138, 234, 202].contains x

/-- XO-form arithmetic; bit 10 is OE and bit 0 is Rc. -/
def decodeArithmetic : Uop :=
  if !unaryXo (xo9 insn) || bits insn 11 5 = 0 then
    let readCa := extendedXo (xo9 insn)
    let readSo := bit insn 10 || bit insn 0
    let writeCa := carryingXo (xo9 insn)
    { carryIn := if readCa then .ca else if invertingXo (xo9 insn) then .one else .zero
      readCa := readCa
      readSo := readSo
      writeCa := writeCa
      writeOvSo := bit insn 10
      writeCrField := bit insn 0
      needsFlags := readCa || readSo || writeCa }
  else undecoded

/-- `mfspr`, `mftb` and `mtspr`. -/
def decodeSpr : Uop :=
  let readForm := xo insn ≠ 467
  let sel := selector insn
  if !bit insn 0 && selectorSupported cfg readForm sel.toNat then
    { specialOp :=
        if cfg.enableFpu && cfg.has602 && (sel = 1021 || sel = 1022) then .fpu
        else if readForm then .mfspr else .mtspr
      spr := sel
      needsFlags := sel = 1
      writeXer := sel = 1 && !readForm }
  else undecoded

/-- Cache-block instructions. -/
def decodeCache : Uop :=
  if cfg.enableCacheInstructions && cfg.enableSupervisorExceptions && !bit insn 0 &&
      bits insn 21 5 = 0 then
    match xo insn with
    | 278 | 246 => if cfg.enableDataCache then special .load else integer
    | 982 => special .icbi
    | 470 | 1014 => special .store
    | _ => special .load
  else undecoded

/-- The loads and stores of primary opcode 31 with an update form. -/
def decodeIndexed : Uop :=
  let isStore := [151, 183, 215, 247, 407, 439].contains (xo insn)
  let isUpdate := [55, 119, 183, 247, 311, 375, 439].contains (xo insn)
  let validUpdate := !isUpdate ||
    (bits insn 16 5 ≠ 0 && (isStore || bits insn 16 5 ≠ bits insn 21 5))
  if !bit insn 0 && validUpdate then special (if isStore then .store else .load) else undecoded

/-- The X forms of primary opcode 31. -/
def decode31x : Uop :=
  match xo insn with
  | 4 => if cfg.enableFullDecode && !bit insn 0 then special .trap else undecoded
  | 310 | 438 =>
    if cfg.enableFullDecode && cfg.hasEar && !bit insn 0 then
      special (if bit insn 8 then .store else .load)
    else undecoded
  | 535 | 567 | 599 | 631 | 663 | 695 | 727 | 759 | 983 =>
    if cfg.enableFullDecode then special .fpu else undecoded
  | 75 | 11 => recordForm (bit insn 0)
  | 512 =>
    if !bit insn 0 && bits insn 21 2 = 0 && bits insn 11 10 = 0 then
      { specialOp := .mcrxr, needsFlags := true, readCa := true, readSo := true
        writeCa := true, writeOvSo := true, writeCrField := true
        crField := insn.extractLsb' 23 3 }
    else undecoded
  | 19 => if !bit insn 0 && bits insn 11 10 = 0 then special .mfcr else undecoded
  | 146 =>
    if cfg.enableSupervisorExceptions && cfg.enableLiveContext && !bit insn 0 &&
        bits insn 11 10 = 0 then special .mtmsr
    else undecoded
  | 83 =>
    if cfg.enableSupervisorExceptions && !bit insn 0 && bits insn 11 10 = 0 then special .mfmsr
    else undecoded
  | 598 =>
    if cfg.enableSupervisorExceptions && (insn = 0x7c0004ac#32 ||
        (cfg.enableFullDecode && insn &&& ~~~0x00600000#32 = 0x7c0004ac#32)) then special .sync
    else undecoded
  | 854 =>
    if cfg.enableSupervisorExceptions && insn = 0x7c0006ac#32 then special .eieio else undecoded
  | 144 =>
    if !bit insn 0 && !bit insn 20 && !bit insn 11 then
      { specialOp := .mtcrf, needsFlags := true, writeCrFields := true
        crMask := insn.extractLsb' 12 8 }
    else undecoded
  | 26 | 954 | 922 => if bits insn 11 5 = 0 then recordForm (bit insn 0) else undecoded
  | 792 | 824 => { recordForm (bit insn 0) with needsFlags := true, writeCa := true }
  | 24 | 536 => recordForm (bit insn 0)
  | 28 | 60 | 444 | 412 | 316 | 476 | 124 | 284 => recordForm (bit insn 0)
  | 0 | 32 =>
    if !bit insn 0 && !bit insn 22 && !bit insn 21 then
      { recordForm true with carryIn := .one, crField := insn.extractLsb' 23 3 }
    else undecoded
  | 978 => if cfg.enableTlbLoad && !bit insn 0 && bits insn 16 10 = 0 then special .tlbld
    else undecoded
  | 1010 => if cfg.enableTlbLoad && !bit insn 0 && bits insn 16 10 = 0 then special .tlbli
    else undecoded
  | 86 | 54 | 470 | 1014 | 278 | 246 | 982 => decodeCache cfg insn
  | 306 => if cfg.enableTlbInvalidate && !bit insn 0 && bits insn 16 10 = 0 then special .tlbie
    else undecoded
  | 566 => if cfg.enableTlbInvalidate && insn = 0x7c00046c#32 then special .tlbsync else undecoded
  | 595 | 210 =>
    if cfg.enableSegmentRegisters && !bit insn 0 && !bit insn 20 && bits insn 11 5 = 0 then
      special (if xo insn = 595 then .mfsr else .mtsr)
    else undecoded
  | 659 | 242 =>
    if cfg.enableSegmentRegisters && !bit insn 0 && bits insn 16 5 = 0 then
      special (if xo insn = 659 then .mfsr else .mtsr)
    else undecoded
  | 339 | 371 | 467 => decodeSpr cfg insn
  | 23 | 55 | 87 | 119 | 151 | 183 | 215 | 247 | 279 | 311 | 343 | 375 | 407 | 439 =>
    decodeIndexed insn
  | 597 | 725 | 533 | 661 =>
    if cfg.stringEmulationTrap then
      if cfg.enableFullDecode && !bit insn 0 then special .emulationTrap else undecoded
    else if cfg.enableMultipleString && cfg.enableSupervisorExceptions && !bit insn 0 then
      special (if bit insn 8 then .store else .load)
    else undecoded
  | 596 | 628 =>
    if cfg.enableFullDecode && cfg.has602 && bits insn 11 15 = 0 && !bit insn 0 then
      special (if bit insn 6 then .dsa else .esa)
    else undecoded
  | 265 =>
    if cfg.enableFullDecode && cfg.has602 && bits insn 11 5 = 0 && !bit insn 0 then special .mfrom
    else undecoded
  | 20 | 150 =>
    -- stwcx. (bit 8 set) writes CR0.
    if cfg.enableReservation && cfg.enableSupervisorExceptions && bit insn 0 = bit insn 8 then
      { specialOp := if bit insn 8 then .store else .load
        memConditional := bit insn 8
        needsFlags := bit insn 8
        writeCrField := bit insn 8 }
    else undecoded
  | 790 | 534 | 918 | 662 =>
    if cfg.enableByteReverse && cfg.enableSupervisorExceptions && !bit insn 0 then
      special (if bit insn 8 then .store else .load)
    else undecoded
  | _ => undecoded

/-- The case over the primary opcode. -/
def decodeForm : Uop :=
  match primary insn with
  | 0 => if cfg.enableSupervisorExceptions && insn = 0 then special .programIllegal else undecoded
  | 3 => if cfg.enableFullDecode then special .trap else undecoded
  | 48 | 49 | 50 | 51 | 52 | 53 | 54 | 55 =>
    if cfg.enableFullDecode then special .fpu else undecoded
  | 59 | 63 => decodeFp cfg insn
  | 7 | 14 | 15 | 24 | 25 | 26 | 27 => integer
  | 8 => { carryIn := .one, needsFlags := true, writeCa := true }
  | 12 | 13 =>
    { needsFlags := true, writeCa := true, readSo := bit insn 26, writeCrField := bit insn 26 }
  | 28 | 29 => recordForm true
  | 20 | 21 | 23 => recordForm (bit insn 0)
  | 18 => special .b
  | 16 => if validBo (bits insn 21 5) then special .bc else undecoded
  | 17 =>
    if cfg.enableSupervisorExceptions && insn = 0x44000002#32 then special .sc else undecoded
  | 19 => decode19 cfg insn
  | 10 | 11 =>
    if !bit insn 22 && !bit insn 21 then
      { recordForm true with carryIn := .one, crField := insn.extractLsb' 23 3 }
    else undecoded
  | 32 | 33 | 34 | 35 | 36 | 37 | 38 | 39 | 40 | 41 | 42 | 43 | 44 | 45 =>
    let isStore := [36, 37, 38, 39, 44, 45].contains (primary insn)
    let validUpdate := !bit insn 26 ||
      (bits insn 16 5 ≠ 0 && (isStore || bits insn 16 5 ≠ bits insn 21 5))
    if validUpdate then special (if isStore then .store else .load) else undecoded
  | 46 | 47 =>
    if cfg.enableMultipleString && cfg.enableSupervisorExceptions &&
        (bit insn 26 || bits insn 16 5 < bits insn 21 5) then
      special (if bit insn 26 then .store else .load)
    else undecoded
  | 31 => if arithmeticXo (xo9 insn) then decodeArithmetic insn else decode31x cfg insn
  | _ => undecoded

/-- `uop_o`: with the full decoder every other word is the illegal-instruction
exception. -/
def decode : Uop :=
  if cfg.enableFullDecode && (decodeForm cfg insn).illegal then special .programIllegal
  else decodeForm cfg insn

end Decode

/-! ## What every decoded word promises -/

/-- The operation reads and writes no flag. -/
def Uop.flagFree (u : Uop) : Bool :=
  !(u.needsFlags || u.readCa || u.readSo || u.writeXer || u.writeCa || u.writeOvSo ||
    u.writeCrField || u.writeCrFields || u.writeCrBit)

/-- The class of the branches. -/
def SpecialOp.branch (op : SpecialOp) : Bool :=
  op = .b || op = .bc || op = .bclr || op = .bcctr

/-- The operations outside the integer unit that may dispatch before the queue
drains: loads and stores but `stwcx.`, FP loads and stores, LR and CTR moves. -/
def Uop.plain (insn : BitVec 32) (u : Uop) : Bool :=
  ((u.specialOp = .load || u.specialOp = .store) && !u.memConditional) ||
    (u.specialOp = .fpu && primary insn ≠ 59 && primary insn ≠ 63) ||
    ((u.specialOp = .mfspr || u.specialOp = .mtspr) && (u.spr = 8 || u.spr = 9))

/-- The flag discipline of a decoded word. -/
structure Disciplined (insn : BitVec 32) (u : Uop) : Prop where
  illegal : u.illegal = true → u.flagFree = true
  branch : u.specialOp.branch = true → u.flagFree = true
  plain : u.plain insn = true → u.flagFree = true
  fpu : u.specialOp = .fpu → u.readCa = false ∧ u.readSo = false ∧ u.writeXer = false ∧
    u.writeCa = false ∧ u.writeOvSo = false
  integer : u.specialOp = .none → u.writeXer = false ∧
    (u.writeCrField = true ∨ u.writeOvSo = true → u.readSo = true)
  carry : u.carryIn = .ca → u.specialOp = .none ∧ u.readCa = true
  overflow : u.writeOvSo = true → u.specialOp = .none ∨ u.specialOp = .mcrxr

section Discipline

variable {cfg : DecodeConfig} {insn : BitVec 32} {u : Uop}

/-- An operation that touches no flag keeps the discipline. -/
theorem disciplined_of_flagFree (h : u.flagFree = true) (hca : u.carryIn = .zero) :
    Disciplined insn u := by
  simp only [Uop.flagFree, Bool.not_eq_true', Bool.or_eq_false_iff] at h
  obtain ⟨⟨⟨⟨⟨⟨⟨⟨h1, h2⟩, h3⟩, h4⟩, h5⟩, h6⟩, h7⟩, h8⟩, h9⟩ := h
  constructor <;> simp [Uop.flagFree, hca, h1, h2, h3, h4, h5, h6, h7, h8, h9]

theorem disciplined_undecoded : Disciplined insn undecoded := disciplined_of_flagFree rfl rfl

theorem disciplined_integer : Disciplined insn integer := disciplined_of_flagFree rfl rfl

theorem disciplined_special (op : SpecialOp) : Disciplined insn (special op) :=
  disciplined_of_flagFree rfl rfl

/-- So does an integer operation that reads SO whenever it records. -/
theorem disciplined_of_integer (hop : u.specialOp = .none) (hill : u.illegal = false)
    (hxer : u.writeXer = false) (hso : u.writeCrField = true ∨ u.writeOvSo = true →
      u.readSo = true) (hca : u.carryIn = .ca → u.readCa = true) : Disciplined insn u := by
  constructor <;> simp_all [SpecialOp.branch, Uop.plain]

theorem disciplined_recordForm (rc : Bool) : Disciplined insn (recordForm rc) :=
  disciplined_of_integer rfl rfl rfl (by simp [recordForm]) (by simp [recordForm])

/-- A CR operation of the special lane drains the queue and is no branch. -/
theorem disciplined_of_drained (hill : u.illegal = false) (hbr : u.specialOp.branch = false)
    (hplain : u.plain insn = false) (hfpu : u.specialOp ≠ .fpu) (hnone : u.specialOp ≠ .none)
    (hca : u.carryIn = .zero) (hov : u.writeOvSo = true → u.specialOp = .mcrxr) :
    Disciplined insn u := by
  constructor <;> simp_all

/-- An FP arithmetic form writes a CR field at most. -/
theorem disciplined_of_fp (h : primary insn = 59 ∨ primary insn = 63)
    (hop : u.specialOp = .fpu ∨ u.specialOp = .fpuEmulate) (hill : u.illegal = false)
    (hxer : u.readCa = false ∧ u.readSo = false ∧ u.writeXer = false ∧ u.writeCa = false ∧
      u.writeOvSo = false) (hca : u.carryIn = .zero) : Disciplined insn u := by
  have hplain : u.plain insn = false := by
    rcases h with h | h <;> rcases hop with hop | hop <;> simp [Uop.plain, hop, h]
  rcases hop with hop | hop <;> constructor <;> simp_all [SpecialOp.branch]

theorem disciplined_decodeFp (h : primary insn = 59 ∨ primary insn = 63) :
    Disciplined insn (decodeFp cfg insn) := by
  unfold decodeFp
  split_ifs
  · exact disciplined_of_fp h (Or.inr rfl) rfl ⟨rfl, rfl, rfl, rfl, rfl⟩ rfl
  · exact disciplined_of_fp h (Or.inr rfl) rfl ⟨rfl, rfl, rfl, rfl, rfl⟩ rfl
  · exact disciplined_of_fp h (Or.inr rfl) rfl ⟨rfl, rfl, rfl, rfl, rfl⟩ rfl
  · exact disciplined_of_fp h (Or.inl rfl) rfl ⟨rfl, rfl, rfl, rfl, rfl⟩ rfl
  · exact disciplined_of_fp h (Or.inl rfl) rfl ⟨rfl, rfl, rfl, rfl, rfl⟩ rfl
  · exact disciplined_of_fp h (Or.inl rfl) rfl ⟨rfl, rfl, rfl, rfl, rfl⟩ rfl
  · exact disciplined_undecoded

theorem disciplined_decode19 : Disciplined insn (decode19 cfg insn) := by
  unfold decode19
  split <;> (try split_ifs) <;> first
    | exact disciplined_undecoded
    | exact disciplined_special _
    | exact disciplined_of_drained rfl rfl rfl (by simp) (by simp) rfl (by simp)

theorem disciplined_decodeArithmetic : Disciplined insn (decodeArithmetic insn) := by
  dsimp only [decodeArithmetic]
  by_cases hform : (!unaryXo (xo9 insn) || decide (bits insn 11 5 = 0)) = true
  · rw [if_pos hform]
    refine disciplined_of_integer rfl rfl rfl ?_ ?_
    · rintro (hrc | hoe)
      · simp_all
      · simp_all
    · intro hca
      by_contra hext
      simp only [Bool.not_eq_true] at hext
      simp only [hext, Bool.false_eq_true, if_false] at hca
      split_ifs at hca
  · rw [if_neg hform]
    exact disciplined_undecoded

theorem disciplined_decodeSpr : Disciplined insn (decodeSpr cfg insn) := by
  dsimp only [decodeSpr]
  by_cases hform : (!bit insn 0 &&
      selectorSupported cfg (decide (xo insn ≠ 467)) (selector insn).toNat) = true
  · rw [if_pos hform]
    by_cases hxer : selector insn = 1
    · have hsel : ¬ (selector insn = 1021 ∨ selector insn = 1022) := by rw [hxer]; decide
      constructor <;> simp_all [SpecialOp.branch, Uop.plain] <;> split_ifs <;> simp_all
    · have hsel : ¬ selector insn = 1#10 := hxer
      exact disciplined_of_flagFree (by simp [Uop.flagFree, hsel]) rfl
  · rw [if_neg hform]
    exact disciplined_undecoded

/-- A choice between two disciplined operations. -/
theorem disciplined_ite {c : Prop} [Decidable c] {a b : Uop} (ha : Disciplined insn a)
    (hb : Disciplined insn b) : Disciplined insn (if c then a else b) := by
  split_ifs
  · exact ha
  · exact hb

/-- A guarded form that touches no flag. -/
theorem disciplined_guarded {c : Prop} [Decidable c] (op : SpecialOp) :
    Disciplined insn (if c then special op else undecoded) :=
  disciplined_ite (disciplined_special op) disciplined_undecoded

theorem disciplined_decodeCache : Disciplined insn (decodeCache cfg insn) := by
  unfold decodeCache
  refine disciplined_ite ?_ disciplined_undecoded
  split
  · exact disciplined_ite (disciplined_special _) disciplined_integer
  · exact disciplined_ite (disciplined_special _) disciplined_integer
  all_goals exact disciplined_special _

/-- `stwcx.` writes CR0 and is not plain. -/
theorem disciplined_reserve :
    Disciplined insn { specialOp := if bit insn 8 then .store else .load
                       memConditional := bit insn 8
                       needsFlags := bit insn 8
                       writeCrField := bit insn 8 } := by
  cases hc : bit insn 8 with
  | false => exact disciplined_of_flagFree rfl rfl
  | true => exact disciplined_of_drained rfl rfl rfl (by simp) (by simp) rfl (by simp)

theorem disciplined_decode31x : Disciplined insn (decode31x cfg insn) := by
  unfold decode31x
  split
  all_goals first
    | exact disciplined_undecoded
    | exact disciplined_recordForm _
    | exact disciplined_decodeSpr
    | exact disciplined_decodeCache
    | exact disciplined_guarded _
    | exact disciplined_ite (disciplined_recordForm _) disciplined_undecoded
    | exact disciplined_of_integer rfl rfl rfl (by simp [recordForm])
        (by simp [recordForm])
    | exact disciplined_ite (disciplined_of_integer rfl rfl rfl (by simp [recordForm])
        (by simp [recordForm])) disciplined_undecoded
    | exact disciplined_ite (disciplined_of_drained rfl rfl rfl (by simp) (by simp) rfl (by simp))
        disciplined_undecoded
    | exact disciplined_ite disciplined_reserve disciplined_undecoded
    | exact disciplined_ite (disciplined_guarded _) (disciplined_guarded _)

theorem disciplined_decodeForm : Disciplined insn (decodeForm cfg insn) := by
  unfold decodeForm
  split
  all_goals first
    | exact disciplined_undecoded
    | exact disciplined_integer
    | exact disciplined_special _
    | exact disciplined_recordForm _
    | exact disciplined_guarded _
    | exact disciplined_decode19
    | exact disciplined_decodeFp (by omega)
    | exact disciplined_of_integer rfl rfl rfl (by simp [recordForm])
        (by simp [recordForm])
    | exact disciplined_ite (disciplined_of_integer rfl rfl rfl (by simp [recordForm])
        (by simp [recordForm])) disciplined_undecoded
    | exact disciplined_ite disciplined_decodeArithmetic disciplined_decode31x

/-- **Every decoded word keeps the flag discipline**, whatever the build
decodes. -/
theorem decode_disciplined (cfg : DecodeConfig) (insn : BitVec 32) :
    Disciplined insn (decode cfg insn) :=
  disciplined_ite (disciplined_special _) disciplined_decodeForm

end Discipline

end Flags
end SloPPC603
