import SloPPC603.Fpu.Adder

/-!
# The rounder

The rounding functions of `ppc_fpu_arith_pkg.sv` and `ppc_fpu_rounder.sv`.

* `directRoundWork` — the sum normalized or denormalized.
* `prepareRoundMantissa`, `roundMantissa`, `finishRounded` — the increment, the rounded
  significand and the reply.
* `roundFinite`, `rounder` — the module.
-/

namespace SloPPC603
namespace Fpu

/-- `direct_round_work`. -/
def directRoundWork (narrow : Bool) (value : FiniteSum) (singleResult ue : Bool)
    (leadingZero : BitVec 8) (normalExponent : BitVec 16) (tinyBefore : Bool)
    (denormShift : BitVec 8) (denormRight : Bool) : RoundWork :=
  let out : RoundWork :=
    { sign := value.sign, negateFinal := value.negateFinal, exponent := value.exponent }
  let high : BitVec 64 := value.magnitude.extractLsb' 96 64
  let lane : BitVec 112 := value.magnitude.extractLsb' 48 112
  if leadingZero = 160 then out
  else
    let out := { out with
      tinyBefore := tinyBefore
      singleLz :=
        (if denormRight then leadingZero - 1 + denormShift
          else leadingZero - 1 - denormShift).setWidth 6 }
    if tinyBefore && !ue then
      { out with
        magnitude :=
          if narrow then
            (if denormRight then shiftRightJam64 high denormShift else high <<< denormShift) ++ 0#96
          else
            (if denormRight then shiftRightJam112 lane denormShift else lane <<< denormShift) ++
              0#48
        exponent := minExponent singleResult }
    else
      { out with
        magnitude :=
          if narrow then
            (if value.magnitude.getLsbD 159 then shiftRightJam64 high 1
              else 0#1 ++ ((high <<< leadingZero) >>> 1).setWidth 63) ++ 0#96
          else
            (if value.magnitude.getLsbD 159 then shiftRightJam112 lane 1
              else 0#1 ++ ((lane <<< leadingZero) >>> 1).setWidth 111) ++ 0#48
        exponent := normalExponent }

/-- The increment that a mode makes of a guard bit, a sticky bit and the lowest kept bit. -/
def increments (rn : BitVec 2) (sign lowest guard sticky : Bool) : Bool :=
  match rn with
  | 0b00#2 => guard && (sticky || lowest)
  | 0b01#2 => false
  | 0b10#2 => !sign && (guard || sticky)
  | _ => sign && (guard || sticky)

/-- `prepare_round_mantissa`. -/
def prepareRoundMantissa (value : RoundWork) (singleResult : Bool) (rn : BitVec 2) : RoundPre :=
  let out : RoundPre :=
    { exponent := value.exponent, sign := value.sign, negateFinal := value.negateFinal
      tinyBefore := value.tinyBefore, singleLz := value.singleLz, zero := value.magnitude = 0 }
  if value.magnitude = 0 then out
  else
    let kept : BitVec 53 :=
      if singleResult then 0#29 ++ value.magnitude.extractLsb' 135 24
      else value.magnitude.extractLsb' 106 53
    let guard := value.magnitude.getLsbD (if singleResult then 134 else 105)
    let sticky : Bool :=
      if singleResult then value.magnitude.extractLsb' 0 134 ≠ 0
      else value.magnitude.extractLsb' 0 105 ≠ 0
    { out with
      kept := kept
      inexact := guard || sticky
      increment := increments rn value.sign (kept.getLsbD 0) guard sticky }

/-- The bits `lo` to `lo + n - 1` of an increment, with the carry that reaches them. -/
def upSegment (kept : BitVec 53) (lo n : ℕ) : BitVec n :=
  kept.extractLsb' lo n +
    (BitVec.ofBool (kept.extractLsb' 0 lo = BitVec.allOnes lo)).setWidth n

/-- `rounded_up`. -/
def roundedUp (kept : BitVec 53) : BitVec 53 :=
  upSegment kept 45 8 ++ upSegment kept 36 9 ++ upSegment kept 27 9 ++ upSegment kept 18 9 ++
    upSegment kept 9 9 ++ upSegment kept 0 9

/-- The largest exponent. -/
def maxExponent (single : Bool) : BitVec 16 := if single then 127 else 1023

/-- The fields that the significand of a single result gives. -/
def singleFields (value : RoundPre) (out : RoundPost) : RoundPost :=
  let kept : BitVec 24 := value.kept.extractLsb' 0 24
  let up : BitVec 24 := (roundedUp value.kept).extractLsb' 0 24
  let baseWide : BitVec 53 := kept ++ 0#29
  let upWide : BitVec 53 := up ++ 0#29
  let upPower : Bool := ~~~kept.extractLsb' 1 23 ||| kept.extractLsb' 0 23 = BitVec.allOnes 23
  let lz : BitVec 11 := value.singleLz.setWidth 11
  let carryOut := value.increment && kept = BitVec.allOnes 24
  { out with
    singleNormalizedWide :=
      if value.increment then
        if upPower then 1#1 ++ 0#52 else upWide <<< value.singleLz
      else baseWide <<< value.singleLz
    singleDenormBiasedExp :=
      if value.increment then
        if kept = 0 then 874 else if upPower then 898 - lz else 897 - lz
      else 897 - lz
    nonzero := value.increment || kept ≠ 0
    lead := kept.getLsbD 23 || (value.increment && kept.extractLsb' 0 23 = BitVec.allOnes 23)
    wide := (if carryOut then 0x800000#24 else if value.increment then up else kept) ++ 0#29 }

/-- The fields that the significand of a double result gives. -/
def doubleFields (value : RoundPre) (out : RoundPost) : RoundPost :=
  let kept := value.kept
  let carryOut := value.increment && kept = BitVec.allOnes 53
  { out with
    wide := if carryOut then 1#1 ++ 0#52 else if value.increment then roundedUp kept else kept
    nonzero := value.increment || kept ≠ 0
    lead := kept.getLsbD 52 || (value.increment && kept.extractLsb' 0 52 = BitVec.allOnes 52) }

/-- `round_mantissa`. -/
def roundMantissa (value : RoundPre) (singleResult oe ue : Bool) : RoundPost :=
  let out : RoundPost :=
    { sign := value.sign, negateFinal := value.negateFinal, tinyBefore := value.tinyBefore }
  if value.zero then out
  else
    let out := { out with fr := value.increment, fi := value.inexact, xx := value.inexact }
    let out := if singleResult then singleFields value out else doubleFields value out
    let carryOut := value.increment &&
      if singleResult then (value.kept.extractLsb' 0 24 = BitVec.allOnes 24 : Bool)
      else value.kept = BitVec.allOnes 53
    let maxExp := maxExponent singleResult
    let scale := trapScale singleResult
    let minExp := minExponent singleResult
    let expUp := value.exponent + 1
    let overflow : Bool :=
      if carryOut then maxExp.toInt ≤ value.exponent.toInt
      else maxExp.toInt < value.exponent.toInt
    let exponent :=
      if overflow && oe then if carryOut then expUp - scale else value.exponent - scale
      else if carryOut then expUp else value.exponent
    { out with
      overflow := overflow
      ox := overflow
      exponentIsMin := exponent = minExp
      biasedExponent := (exponent + 1023).setWidth 11
      fi := out.fi || (overflow && !oe)
      xx := out.xx || (overflow && !oe)
      ux := (value.tinyBefore && ue) || (value.tinyBefore && !ue && value.inexact) }

/-- `finish_rounded`. -/
def finishRounded (cpu602 : Bool) (value : RoundPost) (tag : CompletionTag) (op : Op)
    (singleResult : Bool) (rn : BitVec 2) (ni oe : Bool) : ArithRsp :=
  let wide : BitVec 52 := value.wide.extractLsb' 0 52
  let denormResult := value.exponentIsMin && !value.lead && value.nonzero
  let deliverInf := rn = 0b00 || (rn = 0b10 && !value.sign) || (rn = 0b11 && value.sign)
  let finalSign := value.sign ^^ value.negateFinal
  let out : ArithRsp :=
    { tag := tag, writeResult := true, frfiValid := op ≠ .fres || cpu602, fprfValid := true
      tinyBeforeRound := value.tinyBefore, ox := value.ox, ux := value.ux
      xx := if op = .fres && !cpu602 then false else value.xx
      fr := value.fr, fi := value.fi }
  let pack (exponent : BitVec 11) (fraction : BitVec 52) : BitVec 64 :=
    BitVec.ofBool finalSign ++ exponent ++ fraction
  if value.overflow && !oe then
    { out with
      result :=
        if deliverInf then if finalSign then negInf else posInf
        else if singleResult then pack 1150 (BitVec.allOnes 23 ++ 0#29)
        else pack 0x7fe (BitVec.allOnes 52)
      fprf :=
        if deliverInf then if finalSign then 0b01001 else 0b00101
        else if finalSign then 0b01000 else 0b00100 }
  else if !value.nonzero || (ni && if cpu602 then value.tinyBefore else denormResult) then
    { out with
      result := pack 0 0
      fprf := if finalSign then 0b10010 else 0b00010 }
  else if denormResult then
    { out with
      result :=
        if singleResult then
          pack value.singleDenormBiasedExp (value.singleNormalizedWide.extractLsb' 0 52)
        else pack 0 wide
      fprf := if finalSign then 0b11000 else 0b10100 }
  else
    { out with
      result := pack value.biasedExponent wide
      fprf := if finalSign then 0b01000 else 0b00100 }

/-- The result has single precision. -/
def singleResult (cpu602 single : Bool) (op : Op) : Bool :=
  cpu602 || single || op = .frsp || op = .fres

/-- `round_finite`. -/
def roundFinite (cpu602 : Bool) (value : FiniteSum) (leadingZero : BitVec 8)
    (normalExponent : BitVec 16) (tinyBefore : Bool) (denormShift : BitVec 8)
    (denormRight : Bool) (req : Control) : ArithRsp :=
  let single := singleResult cpu602 req.singleResult req.op
  let work := directRoundWork cpu602 value single req.ue leadingZero normalExponent tinyBefore
    denormShift denormRight
  let pre := prepareRoundMantissa work single req.rn
  let post := roundMantissa pre single req.oe req.ue
  finishRounded cpu602 post req.tag req.op single req.rn req.ni req.oe

/-- `tiny_before`. -/
def tinyBefore (r : RoundInput) : Bool :=
  r.leadingZero ≠ 160 && (r.tinyAlways || r.tinyLimit < r.leadingZero)

/-- `ppc_fpu_rounder`. -/
def rounder (cpu602 : Bool) (r : RoundInput) : ArithRsp :=
  let tiny := tinyBefore r
  let normalExponent :=
    (if tiny && r.req.ue then r.scaledUp else r.exponentUp) - r.leadingZero.setWidth 16
  roundFinite cpu602 r.sum r.leadingZero normalExponent tiny r.denormShift r.denormRight r.req

end Fpu
end SloPPC603
