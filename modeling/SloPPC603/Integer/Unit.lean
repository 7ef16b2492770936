import SloPPC603.Pkg
import SloPPC603.Integer.Divider

/-!
# The integer unit

The registers and clock edge of `ppc_iu.sv`, a registered issue stage: one operation is
held until its result is taken or it is cancelled.  The multiplier takes one signed digit
of the right operand on each edge, the divider runs beside it, and every other operation
is a function of the operands held.

* `Iu.step` — the clock edge.
* `Iu.result` — the result offered.
* `countLeadingZeros` — the tree count, with its array.
* `accepts_held`, `held_kept` — the operation held, and for how long.
-/

namespace SloPPC603
namespace Iu

open Clocked

/-! ## Parameters, inputs and registers -/

/-- The module's parameters. -/
structure Config where
  /-- The latency of a division, at least 17. -/
  divLatency : ℕ := 20
  mul602Timing : Bool := false
  addCompareOnly : Bool := false

/-- `DIGIT_WIDTH`. -/
abbrev Config.digitWidth (cfg : Config) : ℕ := if cfg.mul602Timing then 17 else 9

theorem Config.digitWidth_bounds (cfg : Config) : 9 ≤ cfg.digitWidth ∧ cfg.digitWidth ≤ 17 := by
  simp only [Config.digitWidth]
  split_ifs <;> omega

/-- The inputs of one cycle. -/
structure Input where
  rstN : Bool := true
  cancel : Bool := false
  issueValid : Bool := false
  issue : IssuePacket := default
  resultReady : Bool := false

/-- The registers. -/
structure State (cfg : Config) where
  occupied : Bool
  held : IssuePacket
  divideCyclesLeft : ℕ
  divider : Divider.State
  multiplyActive : Bool
  multiplyDone : Bool
  mulliShort : Bool
  multiplyASign : Bool
  multiplyBSign : Bool
  multiplyStep : BitVec 5
  multiplyDigit : BitVec cfg.digitWidth
  multiplyAcc : BitVec 64
  recordMask : BitVec 32
  recordSignMask : BitVec 32
  rotateAmount : BitVec 5

/-- The divide operations. -/
def AluOp.isDivide (op : AluOp) : Bool := op = .divwu || op = .divw

/-- The multiply operations. -/
def AluOp.isMultiply (op : AluOp) : Bool :=
  op = .mulli || op = .mullw || op = .mulhw || op = .mulhwu

/-- The compare operations. -/
def AluOp.isCompare (op : AluOp) : Bool := op = .cmp || op = .cmpl

/-- All the bits of a word are the same. -/
def uniform {n : ℕ} (x : BitVec n) : Bool := x = BitVec.allOnes n || x = 0

/-- The word of 32 copies of a bit. -/
def fill (b : Bool) : BitVec 32 := if b then BitVec.allOnes 32 else 0

/-- `flags_from_record`. -/
def flagsFromRecord (value : BitVec 32) : BitVec 3 :=
  BitVec.ofBool (value.getLsbD 31) ++
    BitVec.ofBool (!value.getLsbD 31 && decide (value ≠ 0)) ++ BitVec.ofBool (decide (value = 0))

/-! ## What an issue captures -/

/-- `issue_digit`: the low byte, or the low half in the 602's first step. -/
def issueDigit (cfg : Config) (b : BitVec 32) : BitVec cfg.digitWidth :=
  (b.setWidth (cfg.digitWidth - 1)).signExtend cfg.digitWidth

/-- `issue_mulli_short`. -/
def issueMulliShort (cfg : Config) (p : IssuePacket) : Bool :=
  cfg.mul602Timing && !cfg.addCompareOnly && decide (p.ctrl.op = .mulli) &&
    uniform (p.b.extractLsb' 7 25)

/-- `inverse_rotate_mask`. -/
def inverseRotateMask (mask : BitVec 32) (amount : BitVec 5) : BitVec 32 :=
  ((mask ++ mask) >>> amount.toNat).setWidth 32

/-- `record_mask_d`. -/
def recordMaskD (p : IssuePacket) : BitVec 32 :=
  match p.ctrl.op with
  | .rotate => inverseRotateMask p.ctrl.mask (p.b.setWidth 5)
  | .rlwimi => inverseRotateMask p.ctrl.mask p.ctrl.shift
  | .slw => if p.b.getLsbD 5 then 0 else 0xffffffff#32 >>> (p.b.setWidth 5).toNat
  | .srw => if p.b.getLsbD 5 then 0 else 0xffffffff#32 <<< (p.b.setWidth 5).toNat
  | .sraw => if p.b.getLsbD 5 then 0 else 0xffffffff#32 <<< (p.b.setWidth 5).toNat
  | _ => 0

/-- `record_sign_mask_d`. -/
def recordSignMaskD (p : IssuePacket) : BitVec 32 :=
  match p.ctrl.op with
  | .rotate => (0x80000000#32 >>> (p.b.setWidth 5).toNat) &&& fill (p.ctrl.mask.getLsbD 31)
  | .rlwimi => (0x80000000#32 >>> p.ctrl.shift.toNat) &&& fill (p.ctrl.mask.getLsbD 31)
  | .slw => if p.b.getLsbD 5 then 0 else 0x80000000#32 >>> (p.b.setWidth 5).toNat
  | .srw => if p.b.setWidth 6 = 0 then 0x80000000#32 else 0
  -- a negative arithmetic shift never becomes zero
  | .sraw => 0x80000000#32
  | _ => 0

/-- The rotate amount chosen at issue. -/
def rotateAmountD (p : IssuePacket) : BitVec 5 :=
  match p.ctrl.op with
  | .rlwimi => p.ctrl.shift
  | .srw => 0 - p.b.setWidth 5
  | .sraw => 0 - p.b.setWidth 5
  | _ => p.b.setWidth 5

/-! ## The leading zeros -/

/-- Two neighbouring groups of `2 ^ level` bits counted as one. -/
def mergeCounts (level : ℕ) (high low : BitVec 6) : BitVec 6 :=
  if !high.getLsbD level then high
  else if low.getLsbD level then high <<< 1
  else high ||| low

/-- One level of the tree, in the array that holds the counts. -/
def mergeLevel (count : ℕ → BitVec 6) (level : ℕ) : ℕ → BitVec 6 :=
  (List.range (16 >>> level)).foldl (fun count group =>
    Function.update count group
      (mergeCounts level (count (2 * group)) (count (2 * group + 1)))) count

/-- `count_leading_zeros`. -/
def countLeadingZeros (value : BitVec 32) : BitVec 6 :=
  (List.range 5).foldl mergeLevel
    (fun i => (BitVec.ofBool (!value.getLsbD (31 - i))).setWidth 6) 0

/-! ## The combinational signals -/

section Signals

variable {cfg : Config} (s : State cfg) (i : Input)

/-- `held_divide`. -/
def heldDivide : Bool := !cfg.addCompareOnly && AluOp.isDivide s.held.ctrl.op

/-- `held_multiply`. -/
def heldMultiply : Bool := !cfg.addCompareOnly && AluOp.isMultiply s.held.ctrl.op

/-- `divider_busy`. -/
def dividerBusy : Bool := !cfg.addCompareOnly && s.divider.busy

/-- `divider_quotient_valid`. -/
def dividerQuotientValid : Bool := !cfg.addCompareOnly && s.divider.quotientValid

/-- `divider_quotient`. -/
def dividerQuotient : BitVec 32 := if cfg.addCompareOnly then 0 else s.divider.quotientOut

/-- `held_complete`. -/
def heldComplete : Bool :=
  if heldDivide s then decide (s.divideCyclesLeft = 0) && dividerQuotientValid s && !dividerBusy s
  else !heldMultiply s || s.multiplyDone

/-- `result_offer_o`. -/
def resultOffer : Bool := i.rstN && s.occupied && heldComplete s

/-- `result_valid_o`. -/
def resultValid : Bool := resultOffer s i && !i.cancel

/-- The result is taken. -/
def taken : Bool := resultValid s i && i.resultReady

/-- `issue_ready_o`. -/
def issueReady : Bool := i.rstN && (!s.occupied || i.cancel || taken s i)

/-- An operation is issued. -/
def issues : Bool := i.issueValid && issueReady s i

/-- `issue_multiply`. -/
def issueMultiply (cfg : Config) (i : Input) : Bool :=
  !cfg.addCompareOnly && AluOp.isMultiply i.issue.ctrl.op

/-- `issue_multiply_signed`. -/
def issueMultiplySigned (i : Input) : Bool := i.issue.ctrl.op ≠ .mulhwu

/-- The divider's inputs. -/
def dividerInput : Divider.Input where
  rstN := i.rstN
  start := !cfg.addCompareOnly && issues s i && AluOp.isDivide i.issue.ctrl.op
  cancel := i.cancel || (taken s i && heldDivide s)
  signed := i.issue.ctrl.op = .divw
  dividend := i.issue.a
  divisor := i.issue.b

/-! ### The adder -/

/-- `add_operand_a`. -/
def addOperandA : BitVec 32 := if s.held.ctrl.invertA then ~~~s.held.a else s.held.a

/-- `add_carry_in`. -/
def addCarryIn : Bool :=
  match s.held.ctrl.carryIn with
  | .one => true
  | .ca => s.held.ctrl.caIn
  | .zero => false

/-- `add_sum`. -/
def addSum : BitVec 33 :=
  (addOperandA s).setWidth 33 + s.held.b.setWidth 33 + (BitVec.ofBool (addCarryIn s)).setWidth 33

/-- `add_overflow`. -/
def addOverflow : Bool :=
  (addOperandA s).getLsbD 31 == s.held.b.getLsbD 31 &&
    (addSum s).getLsbD 31 != (addOperandA s).getLsbD 31

/-! ### The multiplier -/

/-- `multiply_a`. -/
def multiplyA : BitVec 33 := BitVec.ofBool s.multiplyASign ++ s.held.a

/-- `multiply_b`, of which bits 6:0 are not read. -/
def multiplyB : BitVec 33 := BitVec.ofBool s.multiplyBSign ++ s.held.b

/-- `multiply_partial`. -/
def multiplyPartial : BitVec (cfg.digitWidth + 33) :=
  (multiplyA s).signExtend _ * s.multiplyDigit.signExtend _

/-- `multiply_partial_ext`. -/
def multiplyPartialExt : BitVec 64 := (multiplyPartial s).signExtend 64

/-- `multiply_addend`. -/
def multiplyAddend : BitVec 64 :=
  if s.multiplyStep = 0b00010 then multiplyPartialExt s <<< 8
  else if s.multiplyStep = 0b00100 then multiplyPartialExt s <<< 16
  else if s.multiplyStep = 0b01000 then multiplyPartialExt s <<< 24
  else if s.multiplyStep = 0b10000 then multiplyPartialExt s <<< 32
  else multiplyPartialExt s

/-- The bits of `multiply_b` from `lo` up. -/
def multiplyBits (lo : ℕ) : BitVec (33 - lo) := (multiplyB s).extractLsb' lo (33 - lo)

/-- `multiply_last`: the step just taken is the last. -/
def multiplyLast : Bool :=
  if s.multiplyStep = 0b00010 then uniform (multiplyBits s 15)
  else if s.multiplyStep = 0b00100 then uniform (multiplyBits s 23)
  else if s.multiplyStep = 0b01000 then (multiplyB s).getLsbD 32 == (multiplyB s).getLsbD 31
  else if s.multiplyStep = 0b10000 then true
  else if cfg.mul602Timing then uniform (multiplyBits s 15)
  else uniform (multiplyBits s 7)

/-- The signed byte of `multiply_b` at `lo`, plus the bit below it. -/
def signedByte (lo : ℕ) : BitVec 9 :=
  ((multiplyB s).extractLsb' lo 8).signExtend 9 +
    (BitVec.ofBool ((multiplyB s).getLsbD (lo - 1))).setWidth 9

/-- `multiply_next_byte`. -/
def multiplyNextByte : BitVec 9 :=
  if s.multiplyStep = 0b00010 then signedByte s 16
  else if s.multiplyStep = 0b00100 then signedByte s 24
  else if s.multiplyStep = 0b01000 then
    (BitVec.ofBool ((multiplyB s).getLsbD 32)).signExtend 9 +
      (BitVec.ofBool ((multiplyB s).getLsbD 31)).setWidth 9
  else if s.multiplyStep = 0b10000 then 0
  else if cfg.mul602Timing then signedByte s 16
  else signedByte s 8

/-- `multiply_next_digit`. -/
def multiplyNextDigit : BitVec cfg.digitWidth := (multiplyNextByte s).signExtend _

/-- `multiply_overflow`. -/
def multiplyOverflow : Bool :=
  s.multiplyAcc.extractLsb' 32 32 ≠ fill (s.multiplyAcc.getLsbD 31)

/-- `short_low_part`. -/
def shortLowPart : BitVec 28 :=
  (s.held.a.setWidth 18).setWidth 28 * (s.multiplyDigit.setWidth 9).signExtend 28

/-- `short_high_part`. -/
def shortHighPart : BitVec 14 :=
  s.held.a.extractLsb' 18 14 * (s.multiplyDigit.setWidth 9).signExtend 14

/-- `short_product`. -/
def shortProduct : BitVec 32 := (shortLowPart s).signExtend 32 + (shortHighPart s ++ 0#18)

/-! ### The rotator and the overflow of the result -/

/-- `rotate_value`. -/
def rotateValue : BitVec 32 :=
  ((s.held.a ++ s.held.a) <<< s.rotateAmount.toNat).extractLsb' 32 32

/-- `left_mask`. -/
def leftMask : BitVec 32 := 0xffffffff#32 <<< (s.held.b.setWidth 5).toNat

/-- `right_mask`. -/
def rightMask : BitVec 32 := 0xffffffff#32 >>> (s.held.b.setWidth 5).toNat

/-- `sign_fill`. -/
def signFill : Bool := s.held.a.getLsbD 31

/-- `sraw_value`. -/
def srawValue : BitVec 32 :=
  if s.held.b.getLsbD 5 then fill (signFill s)
  else (rotateValue s &&& rightMask s) ||| (fill (signFill s) &&& ~~~rightMask s)

/-- `sraw_ca`. -/
def srawCa : Bool :=
  signFill s && (s.held.b.getLsbD 5 || decide (s.held.a &&& ~~~leftMask s ≠ 0))

/-- `divide_by_zero`. -/
def divideByZero : Bool := s.held.b = 0

/-- `signed_divide_exception`. -/
def signedDivideException : Bool :=
  divideByZero s || (decide (s.held.a = 0x80000000) && decide (s.held.b = 0xffffffff))

/-- `operation_overflow`. -/
def operationOverflow : Bool :=
  if cfg.addCompareOnly then addOverflow s
  else
    match s.held.ctrl.op with
    | .mulli | .mullw => multiplyOverflow s
    | .divwu => divideByZero s
    | .divw => signedDivideException s
    | _ => addOverflow s

/-- `final_so`. -/
def finalSo : Bool := s.held.ctrl.soIn || operationOverflow s

/-! ### The value and its record -/

/-- `record_a_nonzero`. -/
def recordANonzero : Bool := s.held.a &&& s.recordMask ≠ 0

/-- `record_a_sign`. -/
def recordASign : Bool := s.held.a &&& s.recordSignMask ≠ 0

/-- `record_b_nonzero`. -/
def recordBNonzero : Bool := s.held.b &&& ~~~s.held.ctrl.mask ≠ 0

/-- `record_b_sign`. -/
def recordBSign : Bool := s.held.b.getLsbD 31 && !s.held.ctrl.mask.getLsbD 31

/-- The record of a rotate or a shift: a sign bit over a bit for the rest. -/
def recordPair (sign nonzero : Bool) : BitVec 32 :=
  BitVec.ofBool sign ++ (0#30 ++ BitVec.ofBool nonzero)

/-- `held_compare`. -/
def heldCompare : Bool := AluOp.isCompare s.held.ctrl.op

/-- `alu_value` and the word that `record_flags` is read from. -/
def aluValue : BitVec 32 × BitVec 32 :=
  if cfg.addCompareOnly then
    let value := if heldCompare s then 0 else (addSum s).setWidth 32
    (value, value)
  else
    match s.held.ctrl.op with
    | .add => ((addSum s).setWidth 32, (addSum s).setWidth 32)
    | .rotate => (rotateValue s &&& s.held.ctrl.mask, recordPair (recordASign s) (recordANonzero s))
    | .rlwimi =>
      ((rotateValue s &&& s.held.ctrl.mask) ||| (s.held.b &&& ~~~s.held.ctrl.mask),
        recordPair (recordASign s || recordBSign s) (recordANonzero s || recordBNonzero s))
    | .slw =>
      (if s.held.b.getLsbD 5 then 0 else rotateValue s &&& leftMask s,
        recordPair (recordASign s) (recordANonzero s))
    | .srw =>
      (if s.held.b.getLsbD 5 then 0 else rotateValue s &&& rightMask s,
        recordPair (recordASign s) (recordANonzero s))
    | .sraw => (srawValue s, recordPair (recordASign s) (recordANonzero s))
    | .cntlzw =>
      ((countLeadingZeros s.held.a).setWidth 32, (countLeadingZeros s.held.a).setWidth 32)
    | .extsb => ((s.held.a.setWidth 8).signExtend 32, (s.held.a.setWidth 8).signExtend 32)
    | .extsh => ((s.held.a.setWidth 16).signExtend 32, (s.held.a.setWidth 16).signExtend 32)
    | .mulli => (s.multiplyAcc.setWidth 32, s.multiplyAcc.setWidth 32)
    | .mullw => (s.multiplyAcc.setWidth 32, s.multiplyAcc.setWidth 32)
    | .mulhw => (s.multiplyAcc.extractLsb' 32 32, s.multiplyAcc.extractLsb' 32 32)
    | .mulhwu => (s.multiplyAcc.extractLsb' 32 32, s.multiplyAcc.extractLsb' 32 32)
    | .divwu => (dividerQuotient s, dividerQuotient s)
    | .divw => (dividerQuotient s, dividerQuotient s)
    | .or => (s.held.a ||| s.held.b, s.held.a ||| s.held.b)
    | .xor => (s.held.a ^^^ s.held.b, s.held.a ^^^ s.held.b)
    | .and => (s.held.a &&& s.held.b, s.held.a &&& s.held.b)
    | .andc => (s.held.a &&& ~~~s.held.b, s.held.a &&& ~~~s.held.b)
    | .orc => (s.held.a ||| ~~~s.held.b, s.held.a ||| ~~~s.held.b)
    | .nand => (~~~(s.held.a &&& s.held.b), ~~~(s.held.a &&& s.held.b))
    | .nor => (~~~(s.held.a ||| s.held.b), ~~~(s.held.a ||| s.held.b))
    | .eqv => (~~~(s.held.a ^^^ s.held.b), ~~~(s.held.a ^^^ s.held.b))
    | .cmp => (0, 0)
    | .cmpl => (0, 0)

/-- `record_flags`. -/
def recordFlags : BitVec 3 := flagsFromRecord (aluValue s).2

/-- `result_value`. -/
def resultValue : BitVec 32 := if s.mulliShort then shortProduct s else (aluValue s).1

/-- `compare_eq`. -/
def compareEq : Bool := s.held.a = s.held.b

/-- `compare_gt`. -/
def compareGt : Bool :=
  if s.held.ctrl.op = .cmpl then !(addSum s).getLsbD 32
  else (addSum s).getLsbD 31 != addOverflow s

/-- `result_o.cr0`. -/
def cr0 : BitVec 4 :=
  if !s.held.ctrl.writeCrField then 0
  else if heldCompare s then
    BitVec.ofBool (!compareGt s && !compareEq s) ++ BitVec.ofBool (compareGt s) ++
      BitVec.ofBool (compareEq s) ++ BitVec.ofBool s.held.ctrl.soIn
  else
    recordFlags s ++
      BitVec.ofBool (if s.held.ctrl.writeOvSo then finalSo s else s.held.ctrl.soIn)

/-- `result_o`. -/
def result : ResultPacket where
  producer := s.held.ctrl.producer
  value := resultValue s
  updateValue := 0
  fault := false
  dataFault := .ok
  pageMiss := default
  ca :=
    if s.held.ctrl.writeCa then
      if !cfg.addCompareOnly && decide (s.held.ctrl.op = .sraw) then srawCa s
      else (addSum s).getLsbD 32
    else false
  ov := if s.held.ctrl.writeOvSo then operationOverflow s else false
  so := if s.held.ctrl.writeOvSo then finalSo s else false
  cr0 := cr0 s

/-! ## The clock edge -/

/-- The operation held and what its issue captures beside it. -/
def capture (n : State cfg) : State cfg :=
  if issues s i then
    { n with
      held := i.issue
      recordMask := recordMaskD i.issue
      recordSignMask := recordSignMaskD i.issue
      rotateAmount := rotateAmountD i.issue }
  else n

/-- The multiplier's datapath; it is not reset. -/
def multiplyDatapath (n : State cfg) : State cfg :=
  if issues s i && issueMultiply cfg i then
    { n with
      multiplyASign := issueMultiplySigned i && i.issue.a.getLsbD 31
      multiplyBSign := issueMultiplySigned i && i.issue.b.getLsbD 31
      multiplyStep := 0b00001
      multiplyDigit := issueDigit cfg i.issue.b
      multiplyAcc := 0 }
  else if s.multiplyActive then
    { n with
      -- the 602's first step covers two bytes
      multiplyStep :=
        if cfg.mul602Timing && s.multiplyStep.getLsbD 0 then 0b00100 else s.multiplyStep <<< 1
      multiplyDigit := multiplyNextDigit s
      multiplyAcc := s.multiplyAcc + multiplyAddend s }
  else n

/-- The multiplier's control. -/
def multiplyControl (n : State cfg) : State cfg :=
  if !i.rstN then { n with multiplyActive := false, multiplyDone := false, mulliShort := false }
  else
    let last := s.multiplyActive && multiplyLast s
    let ended := i.cancel || taken s i
    { n with
      mulliShort := issues s i && issueMulliShort cfg i.issue
      multiplyActive :=
        if issues s i then issueMultiply cfg i
        else if ended || last then false
        else s.multiplyActive
      multiplyDone :=
        if issues s i then issueMulliShort cfg i.issue
        else if ended then false
        else if last then true
        else s.multiplyDone }

/-- The occupancy and the divide counter. -/
def occupancy (n : State cfg) : State cfg :=
  if !i.rstN then { n with occupied := false, divideCyclesLeft := 0 }
  else
    { n with
      occupied :=
        if issues s i then true
        else if i.cancel || taken s i then false
        else s.occupied
      divideCyclesLeft :=
        if issues s i then
          if AluOp.isDivide i.issue.ctrl.op then cfg.divLatency - 1 else 0
        else if i.cancel || taken s i then 0
        else if s.occupied && heldDivide s && decide (s.divideCyclesLeft ≠ 0) then
          s.divideCyclesLeft - 1
        else s.divideCyclesLeft }

/-- One clock edge. -/
def step : State cfg :=
  occupancy s i <| multiplyControl s i <| multiplyDatapath s i <| capture s i
    { s with divider := Divider.step s.divider (dividerInput s i) }

end Signals

/-- The unit as a clocked machine; a run starts after an edge in reset. -/
def machine (cfg : Config) : Machine (State cfg) Input where
  Initial := fun s => ∃ s₀ i, i.rstN = false ∧ s = step s₀ i
  step := step

/-! ## What an edge does -/

section Edge

variable {cfg : Config} (s : State cfg) (i : Input)

theorem step_held : (step s i).held = if issues s i then i.issue else s.held := by
  simp only [step, occupancy, multiplyControl, multiplyDatapath, capture]
  split_ifs <;> rfl

theorem step_recordMask :
    (step s i).recordMask = if issues s i then recordMaskD i.issue else s.recordMask := by
  simp only [step, occupancy, multiplyControl, multiplyDatapath, capture]
  split_ifs <;> rfl

theorem step_recordSignMask : (step s i).recordSignMask =
    if issues s i then recordSignMaskD i.issue else s.recordSignMask := by
  simp only [step, occupancy, multiplyControl, multiplyDatapath, capture]
  split_ifs <;> rfl

theorem step_rotateAmount :
    (step s i).rotateAmount = if issues s i then rotateAmountD i.issue else s.rotateAmount := by
  simp only [step, occupancy, multiplyControl, multiplyDatapath, capture]
  split_ifs <;> rfl

theorem step_mulliShort : (step s i).mulliShort =
    (i.rstN && issues s i && issueMulliShort cfg i.issue) := by
  simp only [step, occupancy, multiplyControl]
  cases i.rstN <;> simp

theorem step_occupied : (step s i).occupied =
    (i.rstN && (issues s i || (s.occupied && !(i.cancel || taken s i)))) := by
  simp only [step, occupancy]
  cases i.rstN <;> cases issues s i <;> cases i.cancel <;> cases taken s i <;> simp

theorem step_multiplyASign : (step s i).multiplyASign =
    if issues s i && issueMultiply cfg i then issueMultiplySigned i && i.issue.a.getLsbD 31
    else s.multiplyASign := by
  simp only [step, occupancy, multiplyControl, multiplyDatapath, capture]
  split_ifs <;> rfl

theorem step_multiplyBSign : (step s i).multiplyBSign =
    if issues s i && issueMultiply cfg i then issueMultiplySigned i && i.issue.b.getLsbD 31
    else s.multiplyBSign := by
  simp only [step, occupancy, multiplyControl, multiplyDatapath, capture]
  split_ifs <;> rfl

theorem step_multiplyStep : (step s i).multiplyStep =
    if issues s i && issueMultiply cfg i then 0b00001
    else if s.multiplyActive then
      if cfg.mul602Timing && s.multiplyStep.getLsbD 0 then 0b00100#5 else s.multiplyStep <<< 1
    else s.multiplyStep := by
  simp only [step, occupancy, multiplyControl, multiplyDatapath, capture]
  split_ifs <;> rfl

theorem step_multiplyDigit : (step s i).multiplyDigit =
    if issues s i && issueMultiply cfg i then issueDigit cfg i.issue.b
    else if s.multiplyActive then multiplyNextDigit s
    else s.multiplyDigit := by
  simp only [step, occupancy, multiplyControl, multiplyDatapath, capture]
  split_ifs <;> rfl

theorem step_multiplyAcc : (step s i).multiplyAcc =
    if issues s i && issueMultiply cfg i then 0
    else if s.multiplyActive then s.multiplyAcc + multiplyAddend s
    else s.multiplyAcc := by
  simp only [step, occupancy, multiplyControl, multiplyDatapath, capture]
  split_ifs <;> rfl

theorem issues_rstN {s : State cfg} {i : Input} (h : issues s i = true) : i.rstN = true := by
  simp only [issues, issueReady, Bool.and_eq_true] at h
  exact h.2.1

/-- The operation held is left alone: no reset, no cancel, and its result is not taken. -/
def LeftAlone (s : State cfg) (i : Input) : Prop :=
  i.rstN = true ∧ i.cancel = false ∧ taken s i = false

variable {s : State cfg} {i : Input}

/-- Nothing is issued over an operation that is left alone. -/
theorem not_issues (hocc : s.occupied = true) (h : LeftAlone s i) : issues s i = false := by
  obtain ⟨-, hcancel, htaken⟩ := h
  simp [issues, issueReady, hocc, hcancel, htaken]

/-- An operation that is left alone stays. -/
theorem held_kept (hocc : s.occupied = true) (h : LeftAlone s i) :
    (step s i).held = s.held ∧ (step s i).occupied = true ∧ (step s i).mulliShort = false := by
  have hno := not_issues hocc h
  obtain ⟨hrst, hcancel, htaken⟩ := h
  refine ⟨?_, ?_, ?_⟩
  · rw [step_held, hno, if_neg Bool.false_ne_true]
  · simp [step, occupancy, hrst, hno, hcancel, htaken, hocc]
  · simp [step, occupancy, multiplyControl, hrst, hno]

/-- An operation that is issued is held. -/
theorem accepts_held (h : issues s i = true) :
    (step s i).held = i.issue ∧ (step s i).occupied = true ∧
      (step s i).mulliShort = issueMulliShort cfg i.issue := by
  have hrst := issues_rstN h
  refine ⟨?_, ?_, ?_⟩
  · rw [step_held, if_pos h]
  · simp [step, occupancy, hrst, h]
  · simp [step, occupancy, multiplyControl, hrst, h]

end Edge

end Iu
end SloPPC603
