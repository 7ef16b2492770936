import SloPPC603.Flags.Decode

/-!
# Decoded operations

`uop_t` of `ppc_pkg.sv`: every field of a decoded operation, as the instruction queue
stores it and the sequencer of the load/store unit rewrites it.
-/

namespace SloPPC603
namespace Decode

open Flags (SpecialOp)

/-- `cr_logic_op_t`. -/
inductive CrLogicOp
  | and | andc | eqv | nand | nor | or | orc | xor
  deriving DecidableEq, Repr, Inhabited

/-- `mem_size_t`. -/
inductive MemSize
  | byte | half | word
  deriving DecidableEq, Repr, Inhabited

/-- `mem_seq_t`: where a multiple or string takes its byte count. -/
inductive MemSeq
  | none | multiple | stringImm | stringIndexed
  deriving DecidableEq, Repr, Inhabited

/-- `cache_op_t`. -/
inductive CacheOp
  | none | dcbf | dcbst | dcbi | dcbz | dcbt | dcbtst | sync
  deriving DecidableEq, Repr, Inhabited

/-- `uop_t`; the defaults are the source's `'0`. -/
structure Uop where
  op : AluOp := .add
  invertA : Bool := false
  carryIn : Flags.CarryIn := .zero
  illegal : Bool := false
  srcA : BitVec 5 := 0
  srcB : BitVec 5 := 0
  srcC : BitVec 5 := 0
  dst : BitVec 5 := 0
  gprWrite : Bool := false
  memUpdate : Bool := false
  zeroA : Bool := false
  useImm : Bool := false
  imm : BitVec 32 := 0
  mask : BitVec 32 := 0
  shift : BitVec 5 := 0
  specialOp : SpecialOp := .none
  fetchFault : FetchFault := .ok
  esa : EsaEnable := .denied
  branchDisp : BitVec 32 := 0
  branchAa : Bool := false
  branchLk : Bool := false
  branchBo : BitVec 5 := 0
  branchBi : BitVec 5 := 0
  spr : BitVec 10 := 0
  srIndex : BitVec 4 := 0
  srIndexed : Bool := false
  crField : BitVec 3 := 0
  crSourceField : BitVec 3 := 0
  writeCrFields : Bool := false
  crMask : BitVec 8 := 0
  writeCrBit : Bool := false
  crBit : BitVec 5 := 0
  crBitA : BitVec 5 := 0
  crBitB : BitVec 5 := 0
  crLogic : CrLogicOp := .and
  memSize : MemSize := .byte
  memSigned : Bool := false
  memReverse : Bool := false
  /-- Register bytes fill from the most significant end; `memBytes` counts them, 0
  meaning 4. -/
  memLeft : Bool := false
  memBytes : BitVec 2 := 0
  memSeq : MemSeq := .none
  memReserve : Bool := false
  memConditional : Bool := false
  memExternal : Bool := false
  /-- Completes without a memory access. -/
  memSkip : Bool := false
  /-- Not the last micro-op of its instruction. -/
  seqPartial : Bool := false
  cacheProbe : Bool := false
  blockZero : Bool := false
  cacheOp : CacheOp := .none
  privileged : Bool := false
  alignmentDsisr : BitVec 17 := 0
  readCa : Bool := false
  readSo : Bool := false
  needsFlags : Bool := false
  writeXer : Bool := false
  writeCa : Bool := false
  writeOvSo : Bool := false
  writeCrField : Bool := false
  deriving DecidableEq

/-- `special_a + special_b`: the effective address of an operation whose source
registers hold `a` and `b`. -/
def Uop.effectiveAddress (u : Uop) (a b : BitVec 32) : BitVec 32 :=
  (if u.zeroA then 0 else a) + if u.useImm then u.imm else b

end Decode
end SloPPC603
