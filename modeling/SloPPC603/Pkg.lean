import Mathlib.Tactic.DeriveFintype

/-!
# The shared package

The types of `ppc_pkg.sv` that the modelled units exchange: completion tags,
fault causes, and the packets that carry an instruction from its allocation in
the completion queue to its retirement.

An enumerated type of the source is an inductive type with the source's members
in the source's order, so that the all-zero word is the first of them and
`default` is the source's `'0`.  A tag's index and generation are natural
numbers; the units that compute with them reduce them to their widths.
-/

namespace SloPPC603

/-! ## Tags -/

/-- `CQ_DEPTH`: the slots of the completion queue. -/
def cqDepth : ℕ := 5

/-- `completion_tag_t`: a completion-queue slot and the generation of its
current holder. -/
structure CompletionTag where
  index : ℕ
  generation : ℕ
  deriving DecidableEq, Repr, Inhabited

/-! ## Fault causes -/

/-- `data_fault_t`: the synchronous data faults. -/
inductive DataFault
  | ok
  | dsiProtection
  | pageMiss
  | pageChanged
  | dsiDirectStore
  | machineCheck
  | dsiExternal
  | alignmentDirectStore
  | dsiDirectStoreError
  deriving DecidableEq, Repr, Inhabited

/-- `fetch_fault_t`: the fetch-borne events. -/
inductive FetchFault
  | ok
  | isiProtection
  | isiGuarded
  | pageMiss
  | machineCheck
  | iabr
  | teaRepeat
  deriving DecidableEq, Repr, Inhabited

/-- `esa_enable_t`: the permission fetched with each instruction. -/
inductive EsaEnable
  | denied
  | allowed
  | poBase
  | poSer
  deriving DecidableEq, Repr, Inhabited

/-- `page_miss_t`: the response-bound context of a page miss. -/
structure PageMiss where
  ea : BitVec 32
  sr : BitVec 32
  pr : Bool
  ir : Bool
  dr : Bool
  write : Bool
  way : Bool
  deriving DecidableEq, Repr, Inhabited

/-! ## Packets -/

/-- `result_packet_t`: what an execution unit returns for one entry. -/
structure ResultPacket where
  producer : CompletionTag
  value : BitVec 32
  updateValue : BitVec 32
  fault : Bool
  dataFault : DataFault
  pageMiss : PageMiss
  ca : Bool
  ov : Bool
  so : Bool
  cr0 : BitVec 4
  deriving DecidableEq, Repr, Inhabited

/-- `retire_packet_t`: a completion-queue entry. -/
structure RetirePacket where
  pc : BitVec 32
  insn : BitVec 32
  illegal : Bool
  alignmentException : Bool
  dataFault : DataFault
  fetchFault : FetchFault
  pageMiss : PageMiss
  gprWrite : Bool
  renameOwned : Bool
  gpr : BitVec 5
  tag : BitVec 3
  value : BitVec 32
  updateWrite : Bool
  updateGpr : BitVec 5
  updateValue : BitVec 32
  updateOwned : Bool
  updateTag : BitVec 3
  needsFlags : Bool
  writeXer : Bool
  writeCa : Bool
  writeOvSo : Bool
  writeCrField : Bool
  crField : BitVec 3
  writeCrFields : Bool
  crMask : BitVec 8
  writeCrBit : Bool
  crBit : BitVec 5
  crDelta : BitVec 32
  xerDelta : BitVec 32
  seqPartial : Bool
  branch : Bool
  branchLk : Bool
  branchCtr : Bool
  cq1Ok : Bool
  fprWrite : Bool
  removedBranches : BitVec 3
  deriving DecidableEq, Repr, Inhabited

/-! ## The integer unit's operations and packets -/

/-- `alu_op_t`: the operations of the integer units. -/
inductive AluOp
  | add | or | xor | and | andc
  | orc | nand | nor | eqv
  | rotate | slw | srw | sraw | rlwimi
  | cntlzw | extsb | extsh | mullw
  | mulhw | mulhwu | divwu | divw | mulli
  | cmp | cmpl
  deriving DecidableEq, Repr, Inhabited

/-- `carry_in_t`: what an add takes in. -/
inductive CarryIn
  | zero
  | one
  | ca
  deriving DecidableEq, Repr, Inhabited

/-- `iu_ctrl_t`: the controls fixed at dispatch. -/
structure IuCtrl where
  op : AluOp
  invertA : Bool
  carryIn : CarryIn
  mask : BitVec 32
  shift : BitVec 5
  caIn : Bool
  soIn : Bool
  writeCa : Bool
  writeOvSo : Bool
  writeCrField : Bool
  producer : CompletionTag
  deriving DecidableEq, Repr, Inhabited

/-- `operand_t`: a source operand, or the producer it waits for. -/
structure Operand where
  ready : Bool
  value : BitVec 32
  tag : BitVec 3
  producer : CompletionTag
  deriving DecidableEq, Repr, Inhabited

/-- `rs_entry_t`: what a reservation station holds. -/
structure RsEntry where
  ctrl : IuCtrl
  a : Operand
  b : Operand
  deriving DecidableEq, Repr, Inhabited

/-- `issue_packet_t`: what a station issues. -/
structure IssuePacket where
  ctrl : IuCtrl
  a : BitVec 32
  b : BitVec 32
  deriving DecidableEq, Repr, Inhabited

/-- `wake_packet_t`: a result broadcast to the operands that wait for it. -/
structure WakePacket where
  producer : CompletionTag
  tag : BitVec 3
  value : BitVec 32
  late : Bool
  deriving DecidableEq, Repr, Inhabited

end SloPPC603
