import SloPPC603.Decode.Uop

/-!
# The decoder

All of `ppc_decode.sv`: every field of the operation a word decodes to, for every set of
features and every part.

* `decode` — the decoder.
-/

namespace SloPPC603
namespace Decode

open Flags (DecodeConfig SpecialOp primary xo xo9 bits bit selector validBo fpAForm fpXForm
  fp602Emulated selectorSupported arithmeticXo unaryXo extendedXo invertingXo carryingXo)

/-! ## Fields of a word -/

section Fields

variable (insn : BitVec 32)

/-- The rA field. -/
def rA : BitVec 5 := insn.extractLsb' 16 5

/-- The rB field. -/
def rB : BitVec 5 := insn.extractLsb' 11 5

/-- The rD field. -/
def rD : BitVec 5 := insn.extractLsb' 21 5

/-- A signed immediate. -/
def simm : BitVec 32 := (insn.extractLsb' 0 16).signExtend 32

/-- An unsigned immediate. -/
def uimm : BitVec 32 := (insn.extractLsb' 0 16).setWidth 32

/-- A shifted immediate. -/
def himm : BitVec 32 := insn.extractLsb' 0 16 ++ 0#16

/-- A shift amount. -/
def shiftImm : BitVec 32 := (rB insn).setWidth 32

/-- The displacement of `b`. -/
def disp24 : BitVec 32 := (insn.extractLsb' 2 24 ++ 0#2).signExtend 32

/-- The displacement of `bc`. -/
def disp14 : BitVec 32 := (insn.extractLsb' 2 14 ++ 0#2).signExtend 32

end Fields

/-- `make_rotate_mask`. -/
def makeRotateMask (mb me : BitVec 5) : BitVec 32 :=
  (List.range 32).foldl (fun mask k =>
    if (mb ≤ me ∧ mb.toNat ≤ k ∧ k ≤ me.toNat) ∨ (me < mb ∧ (mb.toNat ≤ k ∨ k ≤ me.toNat)) then
      mask ||| 1#32 <<< (31 - k)
    else mask) 0

/-- The mask of a rotate. -/
def rotateMask (insn : BitVec 32) : BitVec 32 :=
  makeRotateMask (insn.extractLsb' 6 5) (insn.extractLsb' 1 5)

/-- What every word decodes to before its opcode is looked at. -/
def undecoded (insn : BitVec 32) : Uop :=
  { illegal := true, srcA := rA insn, srcB := rB insn, srcC := rD insn, dst := rD insn }

/-- The same of a word the decoder knows. -/
def legal (insn : BitVec 32) : Uop := { undecoded insn with illegal := false }

/-! ## The decoder -/

section Decode

variable (cfg : DecodeConfig) (insn : BitVec 32)

/-- Primary opcode 59 or 63. -/
def decodeFp : Uop :=
  if cfg.enableFullDecode && (fpAForm cfg (primary insn) (bits insn 1 5) ||
      (primary insn = 63 && fpXForm (xo insn))) then
    let op := if cfg.has602 && !cfg.enableFpu && fp602Emulated (primary insn) (xo insn) then
      SpecialOp.fpuEmulate else SpecialOp.fpu
    if cfg.enableFpu && primary insn = 63 && (xo insn = 0 || xo insn = 32 || xo insn = 64) then
      { legal insn with specialOp := op, writeCrField := true, crField := insn.extractLsb' 23 3 }
    else if cfg.enableFpu && bit insn 0 then
      { legal insn with specialOp := op, writeCrField := true, crField := 1 }
    else { legal insn with specialOp := op }
  else undecoded insn

/-- `cr_logic` of a CR operation. -/
def crLogicOp : CrLogicOp :=
  match xo insn with
  | 257 => .and
  | 129 => .andc
  | 289 => .eqv
  | 225 => .nand
  | 33 => .nor
  | 449 => .or
  | 417 => .orc
  | 193 => .xor
  | _ => .and

/-- Primary opcode 19. -/
def decode19 : Uop :=
  match xo insn with
  | 0 =>
    if !bit insn 0 && bits insn 21 2 = 0 && bits insn 16 2 = 0 && bits insn 11 5 = 0 then
      { legal insn with
        specialOp := .mcrf, needsFlags := true, writeCrField := true
        crField := insn.extractLsb' 23 3, crSourceField := insn.extractLsb' 18 3 }
    else undecoded insn
  | 16 =>
    if bits insn 11 5 = 0 && validBo (bits insn 21 5) then
      { legal insn with
        specialOp := .bclr, branchLk := bit insn 0, branchBo := rD insn, branchBi := rA insn }
    else undecoded insn
  | 528 =>
    if bits insn 11 5 = 0 && validBo (bits insn 21 5) && bit insn 23 then
      { legal insn with
        specialOp := .bcctr, branchLk := bit insn 0, branchBo := rD insn, branchBi := rA insn }
    else undecoded insn
  | 50 =>
    if cfg.enableSupervisorExceptions && insn = 0x4c000064#32 then
      { legal insn with specialOp := .rfi }
    else undecoded insn
  | 150 =>
    if cfg.enableSupervisorExceptions && insn = 0x4c00012c#32 then
      { legal insn with specialOp := .isync }
    else undecoded insn
  | 257 | 129 | 289 | 225 | 33 | 449 | 417 | 193 =>
    if !bit insn 0 then
      { legal insn with
        specialOp := .crLogic, needsFlags := true, writeCrBit := true
        crBit := rD insn, crBitA := rA insn, crBitB := rB insn, crLogic := crLogicOp insn }
    else undecoded insn
  | _ => undecoded insn

/-- XO-form arithmetic; bit 10 is OE and bit 0 is Rc. -/
def decodeArithmetic : Uop :=
  if !unaryXo (xo9 insn) || bits insn 11 5 = 0 then
    let readCa := extendedXo (xo9 insn)
    let readSo := bit insn 10 || bit insn 0
    let writeCa := carryingXo (xo9 insn)
    { legal insn with
      gprWrite := true
      op :=
        match xo9 insn with
        | 235 => .mullw
        | 459 => .divwu
        | 491 => .divw
        | _ => .add
      readCa := readCa
      invertA := invertingXo (xo9 insn)
      carryIn := if readCa then .ca else if invertingXo (xo9 insn) then .one else .zero
      readSo := readSo
      writeCa := writeCa
      writeOvSo := bit insn 10
      writeCrField := bit insn 0
      needsFlags := readCa || readSo || writeCa
      useImm := unaryXo (xo9 insn)
      imm := if xo9 insn = 234 || xo9 insn = 232 then 0xffffffff else 0 }
  else undecoded insn

/-- `mfspr`, `mftb` and `mtspr`. -/
def decodeSpr : Uop :=
  let readForm := xo insn ≠ 467
  let sel := selector insn
  let fpuTag := cfg.enableFpu && cfg.has602 && (sel = 1021 || sel = 1022)
  if !bit insn 0 && selectorSupported cfg readForm sel.toNat then
    { legal insn with
      specialOp := if fpuTag then .fpu else if readForm then .mfspr else .mtspr
      spr := sel
      needsFlags := sel = 1
      writeXer := sel = 1 && !readForm
      gprWrite := readForm
      srcA := rD insn
      privileged := fpuTag
      srcB := if fpuTag then rD insn else rB insn }
  else undecoded insn

/-- Cache-block instructions. -/
def decodeCache : Uop :=
  if cfg.enableCacheInstructions && cfg.enableSupervisorExceptions && !bit insn 0 &&
      bits insn 21 5 = 0 then
    match xo insn with
    | 278 | 246 =>
      if cfg.enableDataCache then
        { legal insn with
          zeroA := rA insn = 0, specialOp := .load, memSize := .byte, cacheProbe := true
          cacheOp := if xo insn = 278 then .dcbt else .dcbtst }
      else { legal insn with op := .or, zeroA := true, useImm := true }
    | 982 => { legal insn with zeroA := rA insn = 0, specialOp := .icbi }
    | _ =>
      { legal insn with
        zeroA := rA insn = 0
        specialOp := if xo insn = 470 || xo insn = 1014 then .store else .load
        memSize := .byte
        cacheProbe := true
        blockZero := xo insn = 1014
        privileged := xo insn = 470
        cacheOp :=
          if cfg.enableDataCache then
            match xo insn with
            | 86 => .dcbf
            | 54 => .dcbst
            | 470 => .dcbi
            | _ => .dcbz
          else .none }
  else undecoded insn

/-- An update form names a register for rA, and a load another one than rD. -/
def validUpdate (isStore isUpdate : Bool) : Bool :=
  !isUpdate || (rA insn ≠ 0 && (isStore || rA insn ≠ rD insn))

/-- The loads and stores of primary opcode 31 with an update form. -/
def decodeIndexed : Uop :=
  let isStore := [151, 183, 215, 247, 407, 439].contains (xo insn)
  let isUpdate := [55, 119, 183, 247, 311, 375, 439].contains (xo insn)
  if !bit insn 0 && validUpdate insn isStore isUpdate then
    { legal insn with
      specialOp := if isStore then .store else .load
      gprWrite := !isStore
      memUpdate := isUpdate
      zeroA := !isUpdate && rA insn = 0
      memSize :=
        match xo insn with
        | 87 | 119 | 215 | 247 => .byte
        | 279 | 311 | 343 | 375 | 407 | 439 => .half
        | _ => .word
      memSigned := xo insn = 343 || xo insn = 375 }
  else undecoded insn

/-- A load or store of primary opcode 31 that bit 8 tells apart. -/
def loadStore : Uop :=
  { legal insn with
    specialOp := if bit insn 8 then .store else .load
    gprWrite := !bit insn 8
    zeroA := rA insn = 0 }

/-- An operation with a record form that takes rS and writes rA. -/
def logical (op : AluOp) : Uop :=
  { legal insn with
    gprWrite := true, op := op, srcA := rD insn, dst := rA insn
    readSo := bit insn 0, needsFlags := bit insn 0, writeCrField := bit insn 0 }

/-- A comparison. -/
def compare (op : AluOp) : Uop :=
  { legal insn with
    op := op, invertA := true, carryIn := .one, readSo := true, needsFlags := true
    writeCrField := true, crField := insn.extractLsb' 23 3 }

/-- `mfsr` and its kin. -/
def segmentMove (readForm directForm : Bool) : Uop :=
  { legal insn with
    specialOp := if readForm then .mfsr else .mtsr
    gprWrite := readForm
    srcA := if readForm then 0 else rD insn
    srcB := if directForm then 0 else rB insn
    srIndex := insn.extractLsb' 16 4
    srIndexed := !directForm }

/-- The X forms of primary opcode 31. -/
def decode31x : Uop :=
  match xo insn with
  | 4 =>
    if cfg.enableFullDecode && !bit insn 0 then
      { legal insn with specialOp := .trap, branchBo := rD insn }
    else undecoded insn
  | 310 | 438 =>
    if cfg.enableFullDecode && cfg.hasEar && !bit insn 0 then
      { loadStore insn with memSize := .word, memExternal := true }
    else undecoded insn
  | 535 | 567 | 599 | 631 | 663 | 695 | 727 | 759 | 983 =>
    if cfg.enableFullDecode then
      { legal insn with
        specialOp := .fpu, zeroA := rA insn = 0
        memUpdate := cfg.enableFpu && bit insn 6 && xo insn ≠ 983 }
    else undecoded insn
  | 75 | 11 =>
    { legal insn with
      gprWrite := true, op := if xo insn = 75 then .mulhw else .mulhwu
      readSo := bit insn 0, needsFlags := bit insn 0, writeCrField := bit insn 0 }
  | 512 =>
    if !bit insn 0 && bits insn 21 2 = 0 && bits insn 11 10 = 0 then
      { legal insn with
        specialOp := .mcrxr, needsFlags := true, readCa := true, readSo := true
        writeCa := true, writeOvSo := true, writeCrField := true
        crField := insn.extractLsb' 23 3 }
    else undecoded insn
  | 19 =>
    if !bit insn 0 && bits insn 11 10 = 0 then
      { legal insn with specialOp := .mfcr, gprWrite := true }
    else undecoded insn
  | 146 =>
    if cfg.enableSupervisorExceptions && cfg.enableLiveContext && !bit insn 0 &&
        bits insn 11 10 = 0 then
      { legal insn with specialOp := .mtmsr, srcA := rD insn }
    else undecoded insn
  | 83 =>
    if cfg.enableSupervisorExceptions && !bit insn 0 && bits insn 11 10 = 0 then
      { legal insn with specialOp := .mfmsr, gprWrite := true }
    else undecoded insn
  | 598 =>
    if cfg.enableSupervisorExceptions && (insn = 0x7c0004ac#32 ||
        (cfg.enableFullDecode && insn &&& ~~~0x00600000#32 = 0x7c0004ac#32)) then
      { legal insn with specialOp := .sync }
    else undecoded insn
  | 854 =>
    if cfg.enableSupervisorExceptions && insn = 0x7c0006ac#32 then
      { legal insn with specialOp := .eieio }
    else undecoded insn
  | 144 =>
    if !bit insn 0 && !bit insn 20 && !bit insn 11 then
      { legal insn with
        specialOp := .mtcrf, srcA := rD insn, needsFlags := true, writeCrFields := true
        crMask := insn.extractLsb' 12 8 }
    else undecoded insn
  | 26 | 954 | 922 =>
    if bits insn 11 5 = 0 then
      { logical insn (match xo insn with | 26 => .cntlzw | 954 => .extsb | _ => .extsh) with
        useImm := true }
    else undecoded insn
  | 792 | 824 =>
    { logical insn .sraw with
      needsFlags := true
      writeCa := true
      useImm := xo insn = 824
      imm := if xo insn = 824 then shiftImm insn else 0 }
  | 24 | 536 => logical insn (if xo insn = 24 then .slw else .srw)
  | 28 | 60 | 444 | 412 | 316 | 476 | 124 | 284 =>
    logical insn
      (match xo insn with
      | 28 => .and
      | 60 => .andc
      | 444 => .or
      | 412 => .orc
      | 316 => .xor
      | 476 => .nand
      | 124 => .nor
      | _ => .eqv)
  | 0 | 32 =>
    if !bit insn 0 && !bit insn 22 && !bit insn 21 then
      compare insn (if xo insn = 0 then .cmp else .cmpl)
    else undecoded insn
  | 978 =>
    if cfg.enableTlbLoad && !bit insn 0 && bits insn 16 10 = 0 then
      { legal insn with specialOp := .tlbld, srcA := 0 }
    else undecoded insn
  | 1010 =>
    if cfg.enableTlbLoad && !bit insn 0 && bits insn 16 10 = 0 then
      { legal insn with specialOp := .tlbli, srcA := 0 }
    else undecoded insn
  | 86 | 54 | 470 | 1014 | 278 | 246 | 982 => decodeCache cfg insn
  | 306 =>
    if cfg.enableTlbInvalidate && !bit insn 0 && bits insn 16 10 = 0 then
      { legal insn with specialOp := .tlbie, srcA := 0 }
    else undecoded insn
  | 566 =>
    if cfg.enableTlbInvalidate && insn = 0x7c00046c#32 then
      { legal insn with specialOp := .tlbsync }
    else undecoded insn
  | 595 | 210 =>
    if cfg.enableSegmentRegisters && !bit insn 0 && !bit insn 20 && bits insn 11 5 = 0 then
      segmentMove insn (xo insn = 595) true
    else undecoded insn
  | 659 | 242 =>
    if cfg.enableSegmentRegisters && !bit insn 0 && bits insn 16 5 = 0 then
      segmentMove insn (xo insn = 659) false
    else undecoded insn
  | 339 | 371 | 467 => decodeSpr cfg insn
  | 23 | 55 | 87 | 119 | 151 | 183 | 215 | 247 | 279 | 311 | 343 | 375 | 407 | 439 =>
    decodeIndexed insn
  | 597 | 725 | 533 | 661 =>
    if cfg.stringEmulationTrap then
      if cfg.enableFullDecode && !bit insn 0 then { legal insn with specialOp := .emulationTrap }
      else undecoded insn
    else if cfg.enableMultipleString && cfg.enableSupervisorExceptions && !bit insn 0 then
      { loadStore insn with
        useImm := bit insn 7, memSize := .word, memLeft := true
        memSeq := if bit insn 7 then .stringImm else .stringIndexed }
    else undecoded insn
  | 596 | 628 =>
    if cfg.enableFullDecode && cfg.has602 && bits insn 11 15 = 0 && !bit insn 0 then
      { legal insn with specialOp := if bit insn 6 then .dsa else .esa }
    else undecoded insn
  | 265 =>
    if cfg.enableFullDecode && cfg.has602 && bits insn 11 5 = 0 && !bit insn 0 then
      { legal insn with specialOp := .mfrom, gprWrite := true, privileged := true }
    else undecoded insn
  | 20 | 150 =>
    -- `lwarx` has Rc reserved; `stwcx.` exists only with Rc set.
    if cfg.enableReservation && cfg.enableSupervisorExceptions && bit insn 0 = bit insn 8 then
      { loadStore insn with
        memSize := .word
        memReserve := !bit insn 8
        memConditional := bit insn 8
        needsFlags := bit insn 8
        writeCrField := bit insn 8 }
    else undecoded insn
  | 790 | 534 | 918 | 662 =>
    if cfg.enableByteReverse && cfg.enableSupervisorExceptions && !bit insn 0 then
      { loadStore insn with memSize := if bit insn 9 then .half else .word, memReverse := true }
    else undecoded insn
  | _ => undecoded insn

/-- An operation of rS and an immediate into rA. -/
def logicalImm (op : AluOp) (imm : BitVec 32) : Uop :=
  { legal insn with
    gprWrite := true, op := op, srcA := rD insn, dst := rA insn, useImm := true, imm := imm }

/-- A rotate. -/
def rotate (op : AluOp) : Uop := { logical insn op with mask := rotateMask insn }

/-- The displacement loads and stores. -/
def decodeDisplacement : Uop :=
  let isStore := [36, 37, 38, 39, 44, 45].contains (primary insn)
  if validUpdate insn isStore (bit insn 26) then
    { legal insn with
      specialOp := if isStore then .store else .load
      gprWrite := !isStore
      memUpdate := bit insn 26
      zeroA := !bit insn 26 && rA insn = 0
      useImm := true
      imm := simm insn
      memSize :=
        match primary insn with
        | 34 | 35 | 38 | 39 => .byte
        | 40 | 41 | 42 | 43 | 44 | 45 => .half
        | _ => .word
      memSigned := primary insn = 42 || primary insn = 43 }
  else undecoded insn

/-- The case over the primary opcode. -/
def decodeForm : Uop :=
  match primary insn with
  | 0 =>
    if cfg.enableSupervisorExceptions && insn = 0 then
      { legal insn with specialOp := .programIllegal }
    else undecoded insn
  | 3 =>
    if cfg.enableFullDecode then
      { legal insn with specialOp := .trap, branchBo := rD insn, useImm := true, imm := simm insn }
    else undecoded insn
  | 48 | 49 | 50 | 51 | 52 | 53 | 54 | 55 =>
    if cfg.enableFullDecode then
      { legal insn with
        specialOp := .fpu, memUpdate := cfg.enableFpu && bit insn 26, zeroA := rA insn = 0
        useImm := true, imm := simm insn }
    else undecoded insn
  | 59 | 63 => decodeFp cfg insn
  | 7 => { legal insn with gprWrite := true, op := .mulli, useImm := true, imm := simm insn }
  | 8 =>
    { legal insn with
      gprWrite := true, op := .add, invertA := true, carryIn := .one, useImm := true
      imm := simm insn, needsFlags := true, writeCa := true }
  | 12 | 13 =>
    -- the record form is another primary opcode
    { legal insn with
      gprWrite := true, op := .add, useImm := true, imm := simm insn, needsFlags := true
      writeCa := true, readSo := bit insn 26, writeCrField := bit insn 26 }
  | 14 | 15 =>
    { legal insn with
      gprWrite := true, op := .add, zeroA := rA insn = 0, useImm := true
      imm := if primary insn = 15 then himm insn else simm insn }
  | 28 | 29 =>
    { logicalImm insn .and (if bit insn 26 then himm insn else uimm insn) with
      needsFlags := true, readSo := true, writeCrField := true }
  | 24 | 25 | 26 | 27 =>
    logicalImm insn (if bit insn 27 then .xor else .or)
      (if bit insn 26 then himm insn else uimm insn)
  | 20 => { rotate insn .rlwimi with srcB := rA insn, shift := rB insn }
  | 21 | 23 =>
    { rotate insn .rotate with
      useImm := primary insn = 21
      imm := if primary insn = 21 then shiftImm insn else 0 }
  | 18 =>
    { legal insn with
      specialOp := .b, branchDisp := disp24 insn, branchAa := bit insn 1, branchLk := bit insn 0 }
  | 16 =>
    if validBo (bits insn 21 5) then
      { legal insn with
        specialOp := .bc, branchDisp := disp14 insn, branchAa := bit insn 1
        branchLk := bit insn 0, branchBo := rD insn, branchBi := rA insn }
    else undecoded insn
  | 17 =>
    if cfg.enableSupervisorExceptions && insn = 0x44000002#32 then
      { legal insn with specialOp := .sc }
    else undecoded insn
  | 19 => decode19 cfg insn
  | 10 | 11 =>
    if !bit insn 22 && !bit insn 21 then
      { compare insn (if primary insn = 10 then .cmpl else .cmp) with
        useImm := true, imm := if primary insn = 10 then uimm insn else simm insn }
    else undecoded insn
  | 32 | 33 | 34 | 35 | 36 | 37 | 38 | 39 | 40 | 41 | 42 | 43 | 44 | 45 =>
    decodeDisplacement insn
  | 46 | 47 =>
    if cfg.enableMultipleString && cfg.enableSupervisorExceptions &&
        (bit insn 26 || rA insn < rD insn) then
      { legal insn with
        specialOp := if bit insn 26 then .store else .load
        gprWrite := !bit insn 26, zeroA := rA insn = 0, useImm := true, imm := simm insn
        memSize := .word, memLeft := true, memSeq := .multiple }
    else undecoded insn
  | 31 => if arithmeticXo (xo9 insn) then decodeArithmetic insn else decode31x cfg insn
  | _ => undecoded insn

/-- `spr_form_privileged`. -/
def sprFormPrivileged : Bool :=
  primary insn = 31 && !arithmeticXo (xo9 insn) &&
    (xo insn = 339 || xo insn = 371 || xo insn = 467) && (selector insn).getLsbD 4

/-- The alignment syndrome of a memory operation. -/
def alignmentDsisr : BitVec 17 :=
  if primary insn = 31 then
    insn.extractLsb' 1 2 ++ insn.extractLsb' 6 1 ++ insn.extractLsb' 7 4 ++ rD insn ++ rA insn
  else 0#2 ++ insn.extractLsb' 26 1 ++ insn.extractLsb' 27 4 ++ rD insn ++ rA insn

/-- The operations that carry an alignment syndrome. -/
def aligns (u : Uop) : Bool :=
  !u.illegal && (u.specialOp = .load || u.specialOp = .store ||
    (cfg.enableFpu && u.specialOp = .fpu && primary insn ≠ 59 && primary insn ≠ 63))

/-- With the full decoder every other word is the illegal-instruction exception. -/
def decodeIllegal : Uop :=
  if cfg.enableFullDecode && (decodeForm cfg insn).illegal then
    { specialOp := .programIllegal, privileged := sprFormPrivileged insn }
  else decodeForm cfg insn

/-- `uop_o`. -/
def decode : Uop :=
  let u := decodeIllegal cfg insn
  if aligns cfg insn u then { u with alignmentDsisr := alignmentDsisr insn } else u

end Decode

end Decode
end SloPPC603
