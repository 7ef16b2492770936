import SloPPC603.Pkg

/-!
# Types of the floating-point unit

The requests and replies of `ppc_fpu_pkg.sv` and the records that the stages of
`ppc_fpu_arith_pkg.sv` pass on.  A record's defaults are the source's `'0`.
-/

namespace SloPPC603
namespace Fpu

/-! ## Requests and replies -/

/-- `ppc_fpu_op_t`. -/
inductive Op
  | add | sub | mul | div | madd | msub | nmadd | nmsub | frsp | fctiw | fctiwz | cmpu | cmpo
  | fres | frsqrte
  deriving DecidableEq, Inhabited

/-- The invalid-operation causes, `ppc_fpu_invalid_t`. -/
structure Invalid where
  snan : Bool := false
  isi : Bool := false
  idi : Bool := false
  zdz : Bool := false
  imz : Bool := false
  vc : Bool := false
  soft : Bool := false
  sqrt : Bool := false
  cvi : Bool := false
  deriving DecidableEq

/-- `|invalid`. -/
def Invalid.any (v : Invalid) : Bool :=
  v.snan || v.isi || v.idi || v.zdz || v.imz || v.vc || v.soft || v.sqrt || v.cvi

/-- `ppc_fpu_arith_req_t`. -/
structure ArithReq where
  tag : CompletionTag := default
  op : Op := .add
  a : BitVec 64 := 0
  b : BitVec 64 := 0
  c : BitVec 64 := 0
  rn : BitVec 2 := 0
  ni : Bool := false
  ve : Bool := false
  oe : Bool := false
  ue : Bool := false
  ze : Bool := false
  singleResult : Bool := false

/-- `ppc_fpu_arith_rsp_t`. -/
structure ArithRsp where
  tag : CompletionTag := default
  result : BitVec 64 := 0
  writeResult : Bool := false
  invalid : Invalid := {}
  ox : Bool := false
  ux : Bool := false
  zx : Bool := false
  xx : Bool := false
  fr : Bool := false
  fi : Bool := false
  frfiValid : Bool := false
  fprf : BitVec 5 := 0
  fprfValid : Bool := false
  fpcc : BitVec 4 := 0
  compareValid : Bool := false
  tinyBeforeRound : Bool := false
  deriving DecidableEq

/-- `arith_control_t`. -/
structure Control where
  tag : CompletionTag := default
  op : Op := .add
  rn : BitVec 2 := 0
  ni : Bool := false
  ve : Bool := false
  oe : Bool := false
  ue : Bool := false
  singleResult : Bool := false

/-- The control of a request. -/
def ArithReq.control (q : ArithReq) : Control :=
  ⟨q.tag, q.op, q.rn, q.ni, q.ve, q.oe, q.ue, q.singleResult⟩

/-! ## Operands -/

/-- `special_t`. -/
structure Special where
  sign : Bool := false
  zero : Bool := false
  inf : Bool := false
  nan : Bool := false
  snan : Bool := false

/-- `operand_t`. -/
structure Operand extends Special where
  sig : BitVec 53 := 0
  exp : BitVec 16 := 0

/-- `finite_operands_t`. -/
structure FiniteOperands where
  aSig : BitVec 53 := 0
  bSig : BitVec 53 := 0
  cSig : BitVec 53 := 0
  aExp : BitVec 16 := 0
  bExp : BitVec 16 := 0
  cExp : BitVec 16 := 0
  aSign : Bool := false
  bSign : Bool := false
  cSign : Bool := false

/-- `mul_parts_t`. -/
structure MulParts where
  p00 : BitVec 54 := 0
  p01 : BitVec 53 := 0
  p10 : BitVec 53 := 0
  p11 : BitVec 52 := 0

/-! ## The add lane -/

/-- `finite_prep_t`. -/
structure FinitePrep where
  x : BitVec 160 := 0
  y : BitVec 160 := 0
  expX : BitVec 16 := 0
  expY : BitVec 16 := 0
  signX : Bool := false
  signY : Bool := false
  negateFinal : Bool := false
  singleOperand : Bool := false
  xZero : Bool := false
  yZero : Bool := false

/-- `align_plan_t`. -/
structure AlignPlan where
  x : BitVec 160 := 0
  y : BitVec 160 := 0
  exponent : BitVec 16 := 0
  distance : BitVec 8 := 0
  shiftY : Bool := false
  signX : Bool := false
  signY : Bool := false
  negateFinal : Bool := false
  singleOperand : Bool := false

/-- `finite_sum_t`. -/
structure FiniteSum where
  magnitude : BitVec 160 := 0
  exponent : BitVec 16 := 0
  sign : Bool := false
  negateFinal : Bool := false

/-- `sum_candidate112_t`. -/
structure SumCandidate where
  magnitude : BitVec 112 := 0
  carryOut : Bool := false
  leadingZero : BitVec 8 := 0

/-- `add_result_t`. -/
structure AddResult where
  finiteValue : FiniteSum := {}
  leadingZero : BitVec 8 := 0

/-! ## Rounding -/

/-- `round_work_t`. -/
structure RoundWork where
  magnitude : BitVec 160 := 0
  exponent : BitVec 16 := 0
  sign : Bool := false
  negateFinal : Bool := false
  tinyBefore : Bool := false
  singleLz : BitVec 6 := 0

/-- `round_pre_t`. -/
structure RoundPre where
  kept : BitVec 53 := 0
  exponent : BitVec 16 := 0
  sign : Bool := false
  negateFinal : Bool := false
  tinyBefore : Bool := false
  zero : Bool := false
  inexact : Bool := false
  increment : Bool := false
  singleLz : BitVec 6 := 0

/-- `round_post_t`. -/
structure RoundPost where
  wide : BitVec 53 := 0
  singleNormalizedWide : BitVec 53 := 0
  singleDenormBiasedExp : BitVec 11 := 0
  nonzero : Bool := false
  lead : Bool := false
  exponentIsMin : Bool := false
  biasedExponent : BitVec 11 := 0
  sign : Bool := false
  negateFinal : Bool := false
  tinyBefore : Bool := false
  overflow : Bool := false
  ox : Bool := false
  ux : Bool := false
  xx : Bool := false
  fr : Bool := false
  fi : Bool := false

/-- `conv_parts_t`. -/
structure ConvParts where
  whole : BitVec 33 := 0
  inexact : Bool := false
  increment : Bool := false
  invalidValue : Bool := false
  sign : Bool := false
  snan : Bool := false
  nan : Bool := false

/-! ## Stages -/

/-- `double_multiply_stage_t`. -/
structure MultiplyStage where
  req : Control := {}
  finite : Bool := false
  specialRsp : ArithRsp := {}
  operands : FiniteOperands := {}

/-- `add_input_t`. -/
structure AddInput where
  req : Control := {}
  finite : Bool := false
  conversion : Bool := false
  specialRsp : ArithRsp := {}
  conversionOperand : Special := {}
  conversionTooLarge : Bool := false
  plan : AlignPlan := {}

/-- `round_input_t`. -/
structure RoundInput where
  req : Control := {}
  finite : Bool := false
  conversion : Bool := false
  specialRsp : ArithRsp := {}
  conversionParts : ConvParts := {}
  sum : FiniteSum := {}
  leadingZero : BitVec 8 := 0
  exponentUp : BitVec 16 := 0
  scaledUp : BitVec 16 := 0
  tinyAlways : Bool := false
  tinyLimit : BitVec 8 := 0
  denormShift : BitVec 8 := 0
  denormRight : Bool := false

end Fpu
end SloPPC603
