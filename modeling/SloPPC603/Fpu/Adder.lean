import SloPPC603.Fpu.Align

/-!
# The adder

The signed-magnitude add of the aligned lanes: `carry_select112`, `add_aligned112` and
`ppc_fpu_adder.sv`.

* `CarrySelect.carryIn` — the carry into a block, by prefixes of length 1, 2 and 4.
* `carrySelect112` — the sum, its carry and its leading zeros.
* `addAligned112`, `adder` — the sum of the lanes and the terms of its exponent.
-/

namespace SloPPC603
namespace Fpu

/-! ## The carry-select adder -/

namespace CarrySelect

section Blocks

variable (lhs rhs : BitVec 112) (subtract : Bool)

/-- `b_value`. -/
def bValue : BitVec 112 := rhs ^^^ (if subtract then BitVec.allOnes 112 else 0)

/-- A block of sixteen bits. -/
def block (v : BitVec 112) (k : ℕ) : BitVec 16 := v.extractLsb' (16 * k) 16

/-- `sum_zero`. -/
def sumZero (k : ℕ) : BitVec 17 :=
  (block lhs k).setWidth 17 + (block (bValue rhs subtract) k).setWidth 17

/-- `candidate_zero`. -/
def candidateZero (k : ℕ) : BitVec 16 := (sumZero lhs rhs subtract k).setWidth 16

/-- `candidate_one`. -/
def candidateOne (k : ℕ) : BitVec 16 := candidateZero lhs rhs subtract k + 1

/-- `carry_g0`. -/
def carryG0 (k : ℕ) : Bool := (sumZero lhs rhs subtract k).getLsbD 16

/-- `carry_p0`. -/
def carryP0 (k : ℕ) : Bool := block lhs k ^^^ block (bValue rhs subtract) k = BitVec.allOnes 16

/-- One stage of the prefix: a span joined to the span `d` blocks below it. -/
def joinP (d : ℕ) (p : ℕ → Bool) (k : ℕ) : Bool := if d ≤ k then p k && p (k - d) else p k

def joinG (d : ℕ) (p g : ℕ → Bool) (k : ℕ) : Bool :=
  if d ≤ k then g k || (p k && g (k - d)) else g k

/-- `carry_p1`, `carry_p2` and `carry_p3`. -/
def carryP1 : ℕ → Bool := joinP 1 (carryP0 lhs rhs subtract)
def carryP2 : ℕ → Bool := joinP 2 (carryP1 lhs rhs subtract)
def carryP3 : ℕ → Bool := joinP 4 (carryP2 lhs rhs subtract)

/-- `carry_g1`, `carry_g2` and `carry_g3`. -/
def carryG1 : ℕ → Bool := joinG 1 (carryP0 lhs rhs subtract) (carryG0 lhs rhs subtract)
def carryG2 : ℕ → Bool := joinG 2 (carryP1 lhs rhs subtract) (carryG1 lhs rhs subtract)
def carryG3 : ℕ → Bool := joinG 4 (carryP2 lhs rhs subtract) (carryG2 lhs rhs subtract)

/-- `carry_in`. -/
def carryIn : ℕ → Bool
  | 0 => subtract
  | k + 1 => carryG3 lhs rhs subtract k || (carryP3 lhs rhs subtract k && subtract)

/-- The candidate of a block that its carry selects. -/
def selected (k : ℕ) : BitVec 16 :=
  if carryIn lhs rhs subtract k then candidateOne lhs rhs subtract k
  else candidateZero lhs rhs subtract k

/-- `selected_lz`. -/
def selectedLz (k : ℕ) : BitVec 5 :=
  if carryIn lhs rhs subtract k then leadingZero16 (candidateOne lhs rhs subtract k)
  else leadingZero16 (candidateZero lhs rhs subtract k)

/-- `block_zero`. -/
def blockZero (k : ℕ) : Bool :=
  if carryIn lhs rhs subtract k then candidateOne lhs rhs subtract k = 0
  else candidateZero lhs rhs subtract k = 0

/-- One stage of the suffixes, over the blocks below `n`. -/
def joinAbove (d n : ℕ) (z : ℕ → Bool) (k : ℕ) : Bool := if k < n then z k && z (k + d) else z k

/-- `suffix1`, `suffix2` and `suffix3`. -/
def suffix1 : ℕ → Bool := joinAbove 1 6 (blockZero lhs rhs subtract)
def suffix2 : ℕ → Bool := joinAbove 2 5 (suffix1 lhs rhs subtract)
def suffix3 : ℕ → Bool := joinAbove 4 3 (suffix2 lhs rhs subtract)

/-- `first_block`. -/
def firstBlock (k : ℕ) : Bool :=
  !blockZero lhs rhs subtract k && (if k < 6 then suffix3 lhs rhs subtract (k + 1) else true)

/-- `combined_lz`. -/
def combinedLz : BitVec 8 :=
  (List.range 7).foldl
    (fun lz k => lz ||| ((BitVec.ofNat 8 ((6 - k) * 16) + (selectedLz lhs rhs subtract k).setWidth 8) &&&
      if firstBlock lhs rhs subtract k then BitVec.allOnes 8 else 0)) 0

end Blocks

end CarrySelect

open CarrySelect in
/-- `carry_select112`. -/
def carrySelect112 (lhs rhs : BitVec 112) (subtract : Bool) : SumCandidate where
  magnitude :=
    let s := selected lhs rhs subtract
    s 6 ++ s 5 ++ s 4 ++ s 3 ++ s 2 ++ s 1 ++ s 0
  carryOut := carryG3 lhs rhs subtract 6 || (carryP3 lhs rhs subtract 6 && subtract)
  leadingZero := if suffix3 lhs rhs subtract 0 then 112 else combinedLz lhs rhs subtract

/-! ## The lanes -/

/-- `add_aligned112`. -/
def addAligned112 (x y : BitVec 112) (signX signY singleOperand : Bool) (exponent : BitVec 16)
    (negateFinal : Bool) (rn : BitVec 2) : AddResult :=
  let same := carrySelect112 x y false
  let xy := carrySelect112 x y true
  let yx := carrySelect112 y x true
  let sum : FiniteSum := { exponent := exponent, negateFinal := negateFinal }
  if x = 0 ∧ y = 0 ∧ singleOperand then ⟨{ sum with sign := signX }, 160⟩
  else if signX = signY then
    ⟨{ sum with magnitude := same.magnitude ++ 0#48, sign := signX },
      if same.leadingZero = 112 then 160 else same.leadingZero⟩
  else if xy.leadingZero = 112 then ⟨{ sum with sign := rn = 0b11 }, 160⟩
  else if xy.carryOut then
    ⟨{ sum with magnitude := xy.magnitude ++ 0#48, sign := signX }, xy.leadingZero⟩
  else ⟨{ sum with magnitude := yx.magnitude ++ 0#48, sign := signY }, yx.leadingZero⟩

/-! ## The exponent of the sum -/

/-- The smallest normal exponent. -/
def minExponent (single : Bool) : BitVec 16 := if single then -126 else -1022

/-- The exponent adjustment of an enabled overflow or underflow. -/
def trapScale (single : Bool) : BitVec 16 := if single then 192 else 1536

/-- `denorm_shift`: the distance of an exponent from the smallest. -/
def denormShift (fromMin : BitVec 16) : BitVec 8 :=
  let abs := if fromMin.getLsbD 15 then -fromMin else fromMin
  if 160#16 ≤ abs then 160 else abs.setWidth 8

/-- `tiny_limit`. -/
def tinyLimit (fromMinUp : BitVec 16) : BitVec 8 :=
  if 255 < fromMinUp.toInt then 255 else fromMinUp.setWidth 8

/-- The fields of a rounding input that an exponent gives. -/
def exponentFields (exponent : BitVec 16) (single : Bool) (r : RoundInput) : RoundInput :=
  let fromMin := exponent - minExponent single
  { r with
    exponentUp := exponent + 1
    scaledUp := exponent + 1 + trapScale single
    tinyAlways := (fromMin + 1).getLsbD 15
    tinyLimit := tinyLimit (fromMin + 1)
    denormRight := fromMin.getLsbD 15
    denormShift := denormShift fromMin }

/-- `ppc_fpu_adder`, put into `r`. -/
def adder (valid : Bool) (x y : BitVec 112) (plan : AlignPlan) (rn : BitVec 2) (single : Bool)
    (r : RoundInput) : RoundInput :=
  if valid then
    let result := addAligned112 x y plan.signX plan.signY plan.singleOperand plan.exponent
      plan.negateFinal rn
    exponentFields plan.exponent single
      { r with sum := result.finiteValue, leadingZero := result.leadingZero }
  else r

end Fpu
end SloPPC603
