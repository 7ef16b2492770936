import SloPPC603.Fpu.Operands
import Mathlib.Tactic.Ring

/-!
# Products and alignment

The multiplier, the placement of the operands in the add lane and the aligner:
`ppc_fpu_multiplier.sv`, `ppc_fpu_align_plan.sv` and `ppc_fpu_aligner.sv`.

* `multiplySum`, `multiplySingle` — the two products.
* `prepareFinite`, `planAlignment`, `conversionPlan`, `alignPlan` — where the operands go.
* `shiftRightJam`, `aligner` — the smaller one shifted, its lost bits jammed into the lowest.
-/

namespace SloPPC603
namespace Fpu

/-! ## Products -/

/-- `multiply_parts`. -/
def multiplyParts (aSig cSig : BitVec 53) : MulParts where
  p00 := (aSig.extractLsb' 0 27).setWidth 54 * (cSig.extractLsb' 0 27).setWidth 54
  p01 := (aSig.extractLsb' 0 27).setWidth 53 * (cSig.extractLsb' 27 26).setWidth 53
  p10 := (aSig.extractLsb' 27 26).setWidth 53 * (cSig.extractLsb' 0 27).setWidth 53
  p11 := (aSig.extractLsb' 27 26).setWidth 52 * (cSig.extractLsb' 27 26).setWidth 52

/-- `multiply_sum`. -/
def multiplySum (parts : MulParts) : BitVec 106 :=
  let crossSum : BitVec 55 :=
    (parts.p00.extractLsb' 27 27).setWidth 55 + parts.p01.setWidth 55 + parts.p10.setWidth 55
  let upper : BitVec 52 := parts.p11 + (crossSum.extractLsb' 27 28).setWidth 52
  upper ++ crossSum.extractLsb' 0 27 ++ parts.p00.extractLsb' 0 27

/-- `multiply_single`. -/
def multiplySingle (aSig cSig : BitVec 53) : BitVec 106 :=
  ((aSig.extractLsb' 29 24).setWidth 48 * (cSig.extractLsb' 29 24).setWidth 48) ++ 0#58

/-! ## Placement -/

/-- A significand with its leading bit at 158. -/
def placeSig (sig : BitVec 53) : BitVec 160 := 0#1 ++ sig ++ 0#106

/-- `prepare_finite`. -/
def prepareFinite (op : Op) (o : FiniteOperands) (product : BitVec 106) : FinitePrep :=
  let out : FinitePrep :=
    { xZero := true, yZero := true, negateFinal := op.negateFinal
      singleOperand := op = .mul || op = .frsp }
  if op = .add ∨ op = .sub then
    { out with
      x := placeSig o.aSig, y := placeSig o.bSig
      xZero := o.aSig = 0, yZero := o.bSig = 0
      expX := o.aExp, expY := o.bExp
      signX := o.aSign, signY := o.bSign ^^ (op = .sub : Bool) }
  else if op.multiplies then
    let out := { out with
      x := 0#1 ++ product ++ 0#53
      xZero := o.aSig = 0 || o.cSig = 0
      expX := o.aExp + o.cExp + 1
      signX := o.aSign ^^ o.cSign }
    if op ≠ .mul then
      { out with
        y := placeSig o.bSig, yZero := o.bSig = 0, expY := o.bExp
        signY := o.bSign ^^ op.subtractB }
    else out
  else if op = .frsp then
    { out with
      x := placeSig o.bSig, xZero := o.bSig = 0, expX := o.bExp, signX := o.bSign }
  else out

/-- A shift distance, saturated. -/
def saturate (delta : ℤ) : BitVec 8 := if 160 ≤ delta then 160 else BitVec.ofInt 8 delta

/-- `plan_alignment`. -/
def planAlignment (prep : FinitePrep) : AlignPlan :=
  let out : AlignPlan :=
    { x := prep.x, y := prep.y
      exponent := if prep.xZero && !prep.yZero then prep.expY else prep.expX
      signX := prep.signX, signY := prep.signY
      negateFinal := prep.negateFinal, singleOperand := prep.singleOperand }
  if !prep.yZero && !prep.xZero then
    if prep.expY.toInt < prep.expX.toInt then
      { out with
        distance := saturate (prep.expX.toInt - prep.expY.toInt), shiftY := true }
    else if prep.expX.toInt < prep.expY.toInt then
      { out with
        distance := saturate (prep.expY.toInt - prep.expX.toInt), shiftY := true
        x := prep.y, y := prep.x, signX := prep.signY, signY := prep.signX
        exponent := prep.expY }
    else out
  else out

/-- `conversion_plan`. -/
def conversionPlan (sig : BitVec 53) (exponent : BitVec 16) : AlignPlan :=
  let distance : BitVec 16 := 31 - exponent
  { y := placeSig sig, shiftY := true
    distance :=
      if distance.toInt < 0 then 0
      else if 160 ≤ distance.toInt then 160 else distance.setWidth 8 }

/-- `ppc_fpu_align_plan`. -/
def alignPlan (valid : Bool) (op : Op) (o : FiniteOperands) (product : BitVec 106) : AlignPlan :=
  if valid then
    if op = .fctiw ∨ op = .fctiwz then conversionPlan o.bSig o.bExp
    else planAlignment (prepareFinite op o product)
  else {}

/-! ## The aligner -/

/-- A right shift by `k` with the lost bits jammed into the lowest. -/
def jamStep {w : ℕ} (k : ℕ) (work : BitVec w) : BitVec w :=
  work >>> k ||| (BitVec.ofBool (work.extractLsb' 0 k ≠ 0)).setWidth w

/-- A right shift with jam in `n` stages; a distance of `w` or more leaves the jam alone. -/
def shiftRightJam {w : ℕ} (n : ℕ) (value : BitVec w) (distance : BitVec 8) : BitVec w :=
  if w ≤ distance.toNat then (BitVec.ofBool (value ≠ 0)).setWidth w
  else
    (List.range n).reverse.foldl
      (fun work k => if distance.getLsbD k then jamStep (2 ^ k) work else work) value

/-- `shift_right_jam112`. -/
def shiftRightJam112 (value : BitVec 112) (distance : BitVec 8) : BitVec 112 :=
  shiftRightJam 7 value distance

/-- `shift_right_jam64`. -/
def shiftRightJam64 (value : BitVec 64) (distance : BitVec 8) : BitVec 64 :=
  shiftRightJam 6 value distance

/-- `sticky48`: a bit of `y` that lands below lane bit 48. -/
def sticky48 (y : BitVec 112) (shiftY : Bool) (distance : BitVec 8) : Bool :=
  (List.range 112).any fun j => y.getLsbD j && (j < 48 || (shiftY && j < 48 + distance.toNat))

/-- `ppc_fpu_aligner`. -/
def aligner (cpu602 : Bool) (y : BitVec 112) (shiftY : Bool) (distance : BitVec 8) : BitVec 112 :=
  let shifted := if shiftY then shiftRightJam112 y distance else y
  if cpu602 then
    shifted.extractLsb' 49 63 ++
      BitVec.ofBool (shifted.getLsbD 48 || sticky48 y shiftY distance) ++ 0#48
  else shifted

end Fpu
end SloPPC603
