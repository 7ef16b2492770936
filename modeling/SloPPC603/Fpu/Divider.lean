import SloPPC603.Fpu.Rounder

/-!
# The divider

The registers and clock edge of `ppc_fpu_divider.sv`, a radix-4 restoring divider for
`fdiv` and `fres`.

* `digit`, `remainderNext` — one step of the recurrence.
* `roundInput` — what the divider hands to the rounder.
* `step` — the clock edge.
-/

namespace SloPPC603
namespace Fpu
namespace Divider

/-- `divide_state_t`. -/
inductive Phase
  | idle | start | iter | spNormTiny | norm | tiny | pre | round | pack | special
  deriving DecidableEq

/-- The registers.  `divide_req_q` is its request, the operands in `aRaw` and `bRaw`. -/
structure State where
  phase : Phase
  tag : CompletionTag
  op : Op
  rn : BitVec 2
  ni : Bool
  oe : Bool
  ue : Bool
  ve : Bool
  ze : Bool
  singleResult : Bool
  aRaw : BitVec 63
  bRaw : BitVec 63
  aSign : Bool
  bSign : Bool
  specialRsp : ArithRsp
  specialCount : BitVec 6
  specialPending : Bool
  remainder : BitVec 53
  denominator : BitVec 53
  denominatorX2 : BitVec 54
  denominatorX3 : BitVec 55
  quotient : BitVec 55
  rounds : BitVec 5
  resultExp : BitVec 16
  resultSign : Bool
  sum : FiniteSum

section Signals

variable (cpu602 : Bool) (s : State)

/-- `divide_req_q.single_result || divide_req_q.op == FP_FRES`. -/
def single : Bool := s.singleResult || s.op = .fres

/-- `div_start_a_sig`. -/
def startASig : BitVec 53 :=
  if s.op = .fres then 0x10000000000000 else finiteSig s.aRaw &&& sigMask cpu602

/-- `div_start_b_sig`. -/
def startBSig : BitVec 53 := finiteSig s.bRaw &&& sigMask cpu602

/-- `div_start_a_exp`. -/
def startAExp : BitVec 16 := if s.op = .fres then 0 else finiteExp s.aRaw cpu602

/-- `div_start_b_exp`. -/
def startBExp : BitVec 16 := finiteExp s.bRaw cpu602

/-- `div_start_difference`. -/
def startDifference : BitVec 54 :=
  (startASig cpu602 s).setWidth 54 - (startBSig cpu602 s).setWidth 54

/-- `div_start_special`. -/
def startSpecial : Bool :=
  !(s.bRaw ≠ 0 && s.bRaw.extractLsb' 52 11 ≠ 0x7ff &&
    (s.op = .fres || (s.aRaw ≠ 0 && s.aRaw.extractLsb' 52 11 ≠ 0x7ff)))

/-! ## The recurrence -/

/-- Four times the remainder. -/
def trial : BitVec 55 := s.remainder ++ 0#2

/-- `div_digit`. -/
def digit : BitVec 2 :=
  if s.denominatorX3 ≤ trial s then 3
  else if s.denominatorX2.setWidth 55 ≤ trial s then 2
  else if s.denominator.setWidth 55 ≤ trial s then 1
  else 0

/-- `div_remainder_next`. -/
def remainderNext : BitVec 53 :=
  let t :=
    if s.denominatorX3 ≤ trial s then trial s - s.denominatorX3
    else if s.denominatorX2.setWidth 55 ≤ trial s then trial s - s.denominatorX2.setWidth 55
    else if s.denominator.setWidth 55 ≤ trial s then trial s - s.denominator.setWidth 55
    else trial s
  t.extractLsb' 0 53 &&& sigMask cpu602

/-- `div_quotient_next`. -/
def quotientNext : BitVec 55 := s.quotient <<< 2 ||| (digit s).setWidth 55

/-- `prepare_division_sum`. -/
def divisionSum (single : Bool) (resultExponent : BitVec 16) (resultSign : Bool)
    (quotient : BitVec 55) (remainderNonzero : Bool) : FiniteSum where
  magnitude :=
    if single then
      (0#1 ++ quotient.extractLsb' 0 27 ++ 0#132) |||
        (BitVec.ofBool remainderNonzero).setWidth 160 <<< 96
    else
      (0#1 ++ quotient ++ 0#104) ||| (BitVec.ofBool remainderNonzero).setWidth 160 <<< 48
  exponent := resultExponent
  sign := resultSign

/-! ## Outputs -/

/-- `finishing_o`. -/
def finishing : Bool := s.phase = .pack || (s.phase = .special && s.specialCount = 1)

/-- `busy_o`. -/
def busy : Bool := s.phase ≠ .idle

/-- `next_finish_o`. -/
def nextFinish : Bool := s.phase = .round || (s.phase = .special && s.specialCount = 2)

/-- The control of the division. -/
def control : Control := ⟨s.tag, s.op, s.rn, s.ni, s.ve, s.oe, s.ue, s.singleResult⟩

/-- `round_o`. -/
def roundInput : RoundInput :=
  let r : RoundInput := { req := control s, specialRsp := s.specialRsp }
  if s.phase ≠ .special then
    exponentFields s.sum.exponent (single s)
      { r with
        finite := true, sum := s.sum
        leadingZero := if s.sum.magnitude.getLsbD 158 then 1 else 2 }
  else r

/-! ## The clock edge -/

/-- `divide_state_q` and the registers that go with it. -/
def nextPhase (rstN flush start : Bool) : Phase :=
  if !rstN || flush then .idle
  else if start then .start
  else
    match s.phase with
    | .idle => .idle
    | .start => if startSpecial s then .special else .iter
    | .iter => if s.rounds = 1 then if single s then .spNormTiny else .norm else .iter
    | .spNormTiny => .pre
    | .norm => .tiny
    | .tiny => .pre
    | .pre => .round
    | .round => .pack
    | .pack => .idle
    | .special => if s.specialCount = 1 then .idle else .special

/-- `divide_special_pending_q` and `divide_special_count_q`. -/
def nextSpecial (rstN flush start : Bool) : Bool × BitVec 6 :=
  if !rstN || flush || start then (false, s.specialCount)
  else
    match s.phase with
    | .start =>
      if startSpecial s then (true, if single s then 17 else 32)
      else (s.specialPending, s.specialCount)
    | .special => (false, s.specialCount - 1)
    | _ => (s.specialPending, s.specialCount)

/-- The datapath, which advances by state alone. -/
def datapath : State :=
  match s.phase with
  | .start =>
    if startSpecial s then s
    else
      let less := (startDifference cpu602 s).getLsbD 53
      let b := startBSig cpu602 s
      { s with
        resultSign := (s.op ≠ .fres && s.aSign) ^^ s.bSign
        resultExp := startAExp cpu602 s - startBExp cpu602 s
        denominator := b
        denominatorX2 := b ++ 0#1
        denominatorX3 := b.setWidth 55 + (0#1 ++ b ++ 0#1)
        remainder :=
          if less then startASig cpu602 s else (startDifference cpu602 s).extractLsb' 0 53
        quotient := if less then 0 else 1
        rounds := if single s then 13 else 27 }
  | .iter =>
    { s with
      remainder := remainderNext cpu602 s
      quotient := quotientNext s
      rounds := s.rounds - 1
      sum :=
        if s.rounds = 1 then
          divisionSum (single s) s.resultExp s.resultSign (quotientNext s)
            (remainderNext cpu602 s ≠ 0)
        else s.sum }
  | .special =>
    if s.specialPending then
      let b := BitVec.ofBool s.bSign ++ s.bRaw
      { s with
        specialRsp := calculate cpu602 s.tag s.op (BitVec.ofBool s.aSign ++ s.aRaw) b 0
          (classifyOperand b) s.ve s.ze }
    else s
  | _ => s

/-- The operands load on every cycle on which a divide may start. -/
def load (q : ArithReq) (b : State) : State :=
  if s.phase = .idle || finishing s then
    { b with
      tag := q.tag, op := q.op, rn := q.rn, ni := q.ni, oe := q.oe, ue := q.ue, ve := q.ve
      ze := q.ze, singleResult := cpu602 || q.singleResult
      aRaw := q.a.extractLsb' 0 63, bRaw := q.b.extractLsb' 0 63
      aSign := q.a.getLsbD 63, bSign := q.b.getLsbD 63 }
  else b

/-- The clock edge. -/
def step (rstN flush start : Bool) (q : ArithReq) : State :=
  { load cpu602 s q (datapath cpu602 s) with
    phase := nextPhase s rstN flush start
    specialPending := (nextSpecial s rstN flush start).1
    specialCount := (nextSpecial s rstN flush start).2 }

end Signals

end Divider
end Fpu
end SloPPC603
