import SloPPC603.Clocked.Machine
import SloPPC603.Fpu.Convert
import SloPPC603.Fpu.Divider

/-!
# The arithmetic pipeline

The registers and clock edge of `ppc_fpu_arith.sv`: an input stage, a second multiply stage
for double products, the add stage, the rounding stage and the response queue, with the
divider beside them.

* `slowRound`, `roundHold` — a denormalized single result stays in the rounding stage.
* `step` — the clock edge.
-/

namespace SloPPC603
namespace Fpu
namespace Arith

/-! ## Registers -/

/-- The inputs of one cycle. -/
structure Input where
  rstN : Bool := true
  flush : Bool := false
  reqValid : Bool := false
  req : ArithReq := {}
  /-- `req_fwd_i`: which operands are the result that finishes this cycle. -/
  fwdA : Bool := false
  fwdB : Bool := false
  fwdC : Bool := false
  rspReady : Bool := false

/-- The registers. -/
structure State where
  input : ArithReq
  inputValid : Bool
  /-- The partial products of the multiplier. -/
  parts : MulParts
  multiply : MultiplyStage
  multiplyValid : Bool
  aligned : AddInput
  alignedValid : Bool
  add : RoundInput
  addValid : Bool
  roundWait : BitVec 2
  response : BitVec 2 → ArithRsp
  responseRead : BitVec 2
  responseWrite : BitVec 2
  responseCount : BitVec 3
  outstanding : BitVec 3
  divider : Divider.State

section Signals

variable (cpu602 : Bool) (s : State) (i : Input)

/-! ## Stages -/

/-- `slow_round`: a single result that the rounder denormalizes. -/
def slowRound (r : RoundInput) : Bool :=
  !cpu602 && r.finite && !r.req.ni && !r.req.ue &&
    (r.req.singleResult || r.req.op = .frsp || r.req.op = .fres) && tinyBefore r

/-- `round_hold`. -/
def roundHold : Bool := s.addValid && s.roundWait ≠ 0

/-- `input_valid_q && in_dp_multiply`: a double multiply in the input stage. -/
def inputDouble : Bool := s.inputValid && dpMultiply cpu602 s.input

/-- `multiply_product`. -/
def multiplyProduct (cpu602 : Bool) (q : ArithReq) : BitVec 106 :=
  if q.op.multiplies then
    multiplySingle (operands cpu602 q).aSig (operands cpu602 q).cSig
  else 0

/-- `double_product`. -/
def doubleProduct : BitVec 106 := if cpu602 then 0 else multiplySum s.parts

/-- `shared_plan`. -/
def sharedPlan : AlignPlan :=
  if s.multiplyValid then
    alignPlan s.multiply.finite s.multiply.req.op s.multiply.operands (doubleProduct cpu602 s)
  else
    alignPlan ((finite s.input || conversion s.input) && !dpMultiply cpu602 s.input) s.input.op
      (operands cpu602 s.input) (multiplyProduct cpu602 s.input)

/-- `multiply_double_next`. -/
def multiplyDoubleNext : AddInput where
  req := s.multiply.req
  finite := s.multiply.finite
  specialRsp := s.multiply.specialRsp
  plan := sharedPlan cpu602 s

/-- `multiply_basic_next`. -/
def multiplyBasicNext : AddInput where
  req := s.input.control
  finite := finite s.input
  conversion := conversion s.input
  specialRsp := specialRsp cpu602 s.input
  conversionOperand := conversionOperand s.input
  conversionTooLarge := conversionTooLarge s.input
  plan := sharedPlan cpu602 s

/-- `add_next`, from the register of the add stage. -/
def addNext (q : AddInput) : RoundInput :=
  let y := aligner cpu602 (q.plan.y.extractLsb' 48 112) q.plan.shiftY q.plan.distance
  let single := cpu602 || q.req.singleResult || q.req.op = .frsp
  adder q.finite (q.plan.x.extractLsb' 48 112) y q.plan q.req.rn single
    { req := q.req, finite := q.finite, conversion := q.conversion, specialRsp := q.specialRsp
      conversionParts :=
        convertParts q.conversion q.conversionOperand q.conversionTooLarge y q.req.op q.req.rn }

/-- `round_response`. -/
def roundResponse (r : RoundInput) : ArithRsp :=
  if r.finite then rounder cpu602 r
  else if r.conversion then finishConversion r.req.tag r.req.ve r.conversionParts
  else r.specialRsp

/-! ## Handshakes -/

/-- `push_response`. -/
def pushResponse : Bool := s.addValid && !roundHold s

/-- `rsp_valid_o`. -/
def rspValid : Bool := i.rstN && !i.flush && s.responseCount ≠ 0

/-- `retire`. -/
def retire : Bool := rspValid s i && i.rspReady

/-- `rsp_held_o`. -/
def rspHeld : Bool := i.rstN && s.responseCount ≠ 0

/-- `rsp_o`. -/
def rsp : ArithRsp := s.response s.responseRead

/-- `divide_request`. -/
def divideRequest : Bool := i.req.op = .div || i.req.op = .fres

/-- `req_ready_o`. -/
def reqReady : Bool :=
  i.rstN && !i.flush && !roundHold s && (s.outstanding < 4 || retire s i) &&
    (!Divider.busy s.divider || Divider.finishing s.divider) && !inputDouble cpu602 s

/-- `accept`. -/
def accept : Bool := i.reqValid && reqReady cpu602 s i

/-- `div_busy_o`. -/
def divBusy : Bool :=
  i.rstN && !i.flush && Divider.busy s.divider && !Divider.finishing s.divider

/-- `finish_valid_o`. -/
def finishValid : Bool := i.rstN && !i.flush && pushResponse s

/-- `finish_o`. -/
def finish : ArithRsp := roundResponse cpu602 s.add

/-- `finish_write_o`. -/
def finishWrite : Bool := finishValid s i && (finish cpu602 s).writeResult

/-- `aligned_slow` and `div_slow`. -/
def alignedSlow : Bool := slowRound cpu602 (addNext cpu602 s.aligned)

def divSlow : Bool := slowRound cpu602 (Divider.roundInput s.divider)

/-- `next_finish_valid_o`. -/
def nextFinishValid : Bool :=
  i.rstN && !i.flush &&
    ((s.alignedValid && !roundHold s && !alignedSlow cpu602 s) ||
      (Divider.nextFinish s.divider && !divSlow cpu602 s) || (roundHold s && s.roundWait = 1))

/-- `next_finish_tag_o`. -/
def nextFinishTag : CompletionTag :=
  if roundHold s then s.add.req.tag
  else if s.alignedValid then s.aligned.req.tag
  else s.divider.tag

/-- `req_operands`. -/
def reqOperands : ArithReq :=
  let result := (finish cpu602 s).result
  { i.req with
    a := if i.fwdA then result else i.req.a
    b := if i.fwdB then result else i.req.b
    c := if i.fwdC then result else i.req.c }

/-! ## The clock edge -/

/-- The stages, which a held round stops. -/
def advance (b : State) : State :=
  if roundHold s then { b with roundWait := s.roundWait - 1 }
  else
    { b with
      inputValid := accept cpu602 s i && !divideRequest i
      multiplyValid := inputDouble cpu602 s
      multiply :=
        if inputDouble cpu602 s then
          ⟨s.input.control, finite s.input, specialRsp cpu602 s.input, operands cpu602 s.input⟩
        else s.multiply
      alignedValid := (s.inputValid && !dpMultiply cpu602 s.input) || s.multiplyValid
      aligned :=
        if s.inputValid && !dpMultiply cpu602 s.input then multiplyBasicNext cpu602 s
        else if s.multiplyValid then multiplyDoubleNext cpu602 s
        else s.aligned
      addValid := s.alignedValid || Divider.nextFinish s.divider
      add :=
        if s.alignedValid then addNext cpu602 s.aligned
        else if Divider.nextFinish s.divider then Divider.roundInput s.divider
        else s.add
      roundWait :=
        if (if s.alignedValid then alignedSlow cpu602 s
          else Divider.nextFinish s.divider && divSlow cpu602 s) then 2 else 0 }

/-- A count that an arrival raises and a departure lowers. -/
def count (n : BitVec 3) (up down : Bool) : BitVec 3 :=
  if up && !down then n + 1 else if down && !up then n - 1 else n

/-- The clock edge. -/
def step : State :=
  let start := accept cpu602 s i && divideRequest i
  let b := { s with
    divider := Divider.step cpu602 s.divider i.rstN i.flush start (reqOperands cpu602 s i)
    parts :=
      if !cpu602 && inputDouble cpu602 s then
        multiplyParts (operands cpu602 s.input).aSig (operands cpu602 s.input).cSig
      else s.parts }
  if !i.rstN || i.flush then
    { b with
      inputValid := false, multiplyValid := false, alignedValid := false, addValid := false
      roundWait := 0, responseRead := 0, responseWrite := 0, responseCount := 0
      outstanding := 0 }
  else
    let push := pushResponse s
    advance cpu602 s i
      { b with
        input := if reqReady cpu602 s i && !divideRequest i then reqOperands cpu602 s i else s.input
        response := fun k =>
          if push ∧ k = s.responseWrite then finish cpu602 s else s.response k
        responseWrite := if push then s.responseWrite + 1 else s.responseWrite
        responseRead := if retire s i then s.responseRead + 1 else s.responseRead
        responseCount := count s.responseCount push (retire s i)
        outstanding := count s.outstanding (accept cpu602 s i) (retire s i) }

end Signals

/-- The machine: it starts from a reset. -/
def machine (cpu602 : Bool) : Clocked.Machine State Input where
  Initial s := ∃ s₀ i, i.rstN = false ∧ s = step cpu602 s₀ i
  step := step cpu602

end Arith
end Fpu
end SloPPC603
