import SloPPC603.Fpu.Rounder

/-!
# Conversion to an integer word

`ppc_fpu_convert.sv`: the integer part, guard and sticky of the aligned lane, and the
rounded word.
-/

namespace SloPPC603
namespace Fpu

/-- The largest magnitude of a word of a sign. -/
def wordLimit (sign : Bool) : BitVec 33 := if sign then 0x080000000 else 0x07fffffff

/-- `prepare_conversion`.  Lane bit 79 has weight one. -/
def prepareConversion (source : Special) (tooLarge : Bool) (lane : BitVec 112) (op : Op)
    (rn : BitVec 2) : ConvParts :=
  let bad := source.nan || source.inf || (tooLarge && !source.zero)
  let taken := !bad && !source.zero
  let whole : BitVec 33 := if taken then lane.extractLsb' 79 33 else 0
  let guard := taken && lane.getLsbD 78
  let sticky := taken && lane.extractLsb' 0 78 ≠ 0
  let increment :=
    increments (if op = .fctiwz then 0b01 else rn) source.sign (whole.getLsbD 0) guard sticky
  { whole := whole
    inexact := guard || sticky
    increment := increment
    invalidValue := bad || wordLimit source.sign < whole ||
      (whole = wordLimit source.sign && increment)
    sign := source.sign, snan := source.snan, nan := source.nan }

/-- `finish_conversion`. -/
def finishConversion (tag : CompletionTag) (ve : Bool) (parts : ConvParts) : ArithRsp :=
  let whole := parts.whole + (BitVec.ofBool parts.increment).setWidth 33
  let out : ArithRsp := { tag := tag, writeResult := true, frfiValid := true }
  if parts.invalidValue then
    { out with
      invalid := { cvi := true, snan := parts.snan }
      writeResult := !ve
      result := 0#32 ++ if parts.nan || parts.sign then 0x80000000#32 else 0x7fffffff#32 }
  else
    { out with
      result := 0#32 ++ (if parts.sign then 0 - whole else whole).setWidth 32
      fr := parts.increment, fi := parts.inexact, xx := parts.inexact }

/-- `parts_o` of `ppc_fpu_convert`. -/
def convertParts (valid : Bool) (source : Special) (tooLarge : Bool) (lane : BitVec 112) (op : Op)
    (rn : BitVec 2) : ConvParts :=
  if valid then prepareConversion source tooLarge lane op rn else {}

end Fpu
end SloPPC603
