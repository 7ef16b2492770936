import SloPPC603.Fpu.Types

/-!
# Operands

The classification of operands, the replies of special operands, and the finite operand
fields: the functions of `ppc_fpu_arith_pkg.sv` behind `ppc_fpu_unpack.sv`.

* `rawSig`, `rawExp`, `finiteSig`, `finiteExp` — the fields of a finite operand.
* `calculate` — the reply of a special operand, an estimate or a compare.
* `unpack` — the module.
-/

namespace SloPPC603
namespace Fpu

/-! ## Counting leading zeros -/

/-- One step of a count: when the top `k` bits are zero they are shifted out and counted. -/
def lzStep {w c : ℕ} (k : ℕ) (p : BitVec w × BitVec c) : BitVec w × BitVec c :=
  if p.1.extractLsb' (w - k) k = 0 then (p.1 <<< k, p.2 + BitVec.ofNat c k) else p

/-- `leading_zero53`. -/
def leadingZero53 (value : BitVec 53) : BitVec 6 :=
  ([32, 16, 8, 4, 2, 1].foldl (fun p k => lzStep k p) (value, (0 : BitVec 6))).2

/-- `leading_zero16`. -/
def leadingZero16 (value : BitVec 16) : BitVec 5 :=
  if value = 0 then 16
  else ([8, 4, 2, 1].foldl (fun p k => lzStep k p) (value, (0 : BitVec 5))).2

/-! ## Classes -/

/-- The exponent field. -/
def expField (bits : BitVec 64) : BitVec 11 := bits.extractLsb' 52 11

/-- The fraction field. -/
def fracField (bits : BitVec 64) : BitVec 52 := bits.extractLsb' 0 52

/-- `classify_special`. -/
def classifySpecial (bits : BitVec 64) : Special where
  sign := bits.getLsbD 63
  zero := bits.extractLsb' 0 63 = 0
  inf := bits.extractLsb' 0 63 = 0x7ff0000000000000#63
  nan := expField bits = 0x7ff && fracField bits ≠ 0
  snan := expField bits = 0x7ff && fracField bits ≠ 0 && !bits.getLsbD 51

/-- `classify_operand`. -/
def classifyOperand (bits : BitVec 64) : Operand := { toSpecial := classifySpecial bits }

/-- `unpack`. -/
def unpackOperand (bits : BitVec 64) : Operand :=
  let v : Operand := { toSpecial := classifySpecial bits }
  if expField bits ≠ 0 ∧ expField bits ≠ 0x7ff then
    { v with
      sig := 1#1 ++ fracField bits
      exp := (expField bits).setWidth 16 - 1023 }
  else if expField bits = 0 ∧ fracField bits ≠ 0 then
    let sig := 0#1 ++ fracField bits
    { v with
      sig := sig <<< leadingZero53 sig
      exp := -1022 - (leadingZero53 sig).setWidth 16 }
  else v

/-- `result_class`. -/
def resultClass (bits : BitVec 64) : BitVec 5 :=
  if expField bits = 0x7ff then
    if fracField bits ≠ 0 then 0b10001
    else if bits.getLsbD 63 then 0b01001 else 0b00101
  else if expField bits = 0 then
    if fracField bits = 0 then if bits.getLsbD 63 then 0b10010 else 0b00010
    else if bits.getLsbD 63 then 0b11000 else 0b10100
  else if bits.getLsbD 63 then 0b01000 else 0b00100

/-! ## Finite operand fields -/

/-- `raw_sig`. -/
def rawSig (magnitude : BitVec 63) : BitVec 53 :=
  BitVec.ofBool (magnitude.extractLsb' 52 11 ≠ 0) ++ magnitude.extractLsb' 0 52

/-- `raw_exp`. -/
def rawExp (biased : BitVec 11) : BitVec 16 :=
  if biased = 0 then -1022 else biased.setWidth 16 - 1023

/-- `finite_sig`. -/
def finiteSig (magnitude : BitVec 63) : BitVec 53 :=
  let significand := rawSig magnitude
  if magnitude.extractLsb' 52 11 = 0 then significand <<< leadingZero53 significand
  else significand

/-- `finite_exp`. -/
def finiteExp (magnitude : BitVec 63) (cpu602 : Bool) : BitVec 16 :=
  if magnitude.extractLsb' 52 11 = 0 then
    (if cpu602 then -126 else -1022) -
      (leadingZero53 (0#1 ++ magnitude.extractLsb' 0 52)).setWidth 16
  else (magnitude.extractLsb' 52 11).setWidth 16 - 1023

/-- `prepare_operands`. -/
def prepareOperands (a b c : BitVec 64) : FiniteOperands where
  aSig := rawSig (a.extractLsb' 0 63)
  bSig := rawSig (b.extractLsb' 0 63)
  cSig := rawSig (c.extractLsb' 0 63)
  aExp := rawExp (expField a)
  bExp := rawExp (expField b)
  cExp := rawExp (expField c)
  aSign := a.getLsbD 63
  bSign := b.getLsbD 63
  cSign := c.getLsbD 63

/-! ## Special operands -/

/-- `QNAN`. -/
def qNan : BitVec 64 := 0x7ff8000000000000

/-- `POS_INF`. -/
def posInf : BitVec 64 := 0x7ff0000000000000

/-- `NEG_INF`. -/
def negInf : BitVec 64 := 0xfff0000000000000

/-- A sign and a magnitude. -/
def signed (sign : Bool) (magnitude : BitVec 63) : BitVec 64 := BitVec.ofBool sign ++ magnitude

/-- The multiply class. -/
def Op.multiplies (op : Op) : Bool :=
  op = .mul || op = .madd || op = .msub || op = .nmadd || op = .nmsub

/-- The fused class. -/
def Op.fused (op : Op) : Bool := op = .madd || op = .msub || op = .nmadd || op = .nmsub

/-- `subtract_b`. -/
def Op.subtractB (op : Op) : Bool := op = .msub || op = .nmsub

/-- `negate_final`. -/
def Op.negateFinal (op : Op) : Bool := op = .nmadd || op = .nmsub

/-- `use_a`. -/
def Op.useA (op : Op) : Bool :=
  op = .add || op = .sub || op = .cmpu || op = .cmpo || op = .div || op.multiplies

/-- `use_b`. -/
def Op.useB (op : Op) : Bool := op ≠ .mul

/-- `use_c`. -/
def Op.useC (op : Op) : Bool := op.multiplies

/-- `rsqrt_significand`: the estimates, even exponents first. -/
def rsqrtTable : List (BitVec 53) :=
  [0x1f82ec882c0f9a, 0x1e990cdad55ed2, 0x1dc267bea45548, 0x1cfc7da32a9212,
   0x1c453d90f057a1, 0x1b9aedba588347, 0x1afc19d8606169, 0x1a6785b41bacf7,
   0x19dc22be484457, 0x195907eb87ab44, 0x18dd6b4563a009, 0x18689cc7e07e7c,
   0x17fa023f1068d0, 0x179113ebbd7729, 0x172d59c45f1fc5, 0x16ce6931d5858d,
   0x16482d37a5a3d1, 0x15a2cd8c69d61a, 0x150b06a8fc6b6f, 0x147f144fe17f9f,
   0x13fd8077e70576, 0x138512ba21f51e, 0x1314c3d92a9e90, 0x12abb43c0eb0f3,
   0x12492492492492, 0x11ec70124e98f9, 0x119507ecf5b9e8, 0x11426fac0654da,
   0x10f43a45cdedac, 0x10aa07bd7b7488, 0x10638331ff3079, 0x102061446ffa99]

def rsqrtSignificand (oddExponent : Bool) (index : BitVec 4) : BitVec 53 :=
  rsqrtTable.getD ((if oddExponent then 16 else 0) + index.toNat) 0x10000000000000

section Calculate

variable (cpu602 : Bool) (tag : CompletionTag) (op : Op) (aBits bBits cBits : BitVec 64)
  (b : Operand) (ve ze : Bool)

/-- The invalid causes of an operation that is not a compare. -/
def invalidCauses : Invalid :=
  let a := classifySpecial aBits
  let c := classifySpecial cBits
  let imz := op.multiplies && ((a.zero && c.inf) || (a.inf && c.zero))
  { snan := (op.useA && a.snan) || (op.useB && b.snan) || (op.useC && c.snan)
    imz := imz
    isi :=
      if op.fused then
        (a.inf || c.inf) && b.inf && !a.nan && !c.nan && !imz &&
          (a.sign ^^ c.sign) ≠ (b.sign ^^ op.subtractB)
      else if op = .add ∨ op = .sub then a.inf && b.inf && a.sign ≠ (b.sign ^^ (op = .sub : Bool))
      else false
    idi := op = .div && a.inf && b.inf
    zdz := op = .div && a.zero && b.zero
    sqrt := op = .frsqrte && b.sign && !b.zero && !b.nan }

/-- `any_nan`. -/
def anyNan : Bool :=
  (op.useA && (classifySpecial aBits).nan) || (op.useB && b.nan) ||
    (op.useC && (classifySpecial cBits).nan)

/-- `selected_nan`. -/
def selectedNan : BitVec 64 :=
  if op.useA && (classifySpecial aBits).nan then aBits ||| 0x0008000000000000
  else if op.useB && b.nan then bBits ||| 0x0008000000000000
  else if op.useC && (classifySpecial cBits).nan then cBits ||| 0x0008000000000000
  else qNan

/-- `compare_code`. -/
def compareCode : BitVec 4 :=
  let a := classifySpecial aBits
  if anyNan op aBits cBits b then 0b0001
  else if !(a.zero && b.zero) && aBits ≠ bBits then
    let less :=
      if a.sign ≠ b.sign then a.sign
      else if !a.sign then aBits.extractLsb' 0 63 < bBits.extractLsb' 0 63
      else bBits.extractLsb' 0 63 < aBits.extractLsb' 0 63
    if less then 0b1000 else 0b0100
  else 0b0010

/-- `calculate`. -/
def calculate : ArithRsp :=
  let a := classifySpecial aBits
  let c := classifySpecial cBits
  let invalid := invalidCauses op aBits cBits b
  let nan := anyNan op aBits cBits b
  let out : ArithRsp :=
    { tag := tag, writeResult := true, frfiValid := true, fprfValid := true, invalid := invalid }
  let deliver (result : BitVec 64) : ArithRsp :=
    { out with result := result, fprf := resultClass result }
  if op = .cmpu ∨ op = .cmpo then
    { out with
      writeResult := false, frfiValid := false, fprfValid := false, compareValid := true
      invalid := { invalid with vc := op = .cmpo && nan && (!invalid.snan || !ve) }
      fpcc := compareCode op aBits bBits cBits b }
  else if nan || invalid.isi || invalid.idi || invalid.zdz || invalid.imz || invalid.sqrt then
    let nanBits := if nan then selectedNan op aBits bBits cBits b else qNan
    let result := if op = .frsp then nanBits &&& ~~~0x1fffffff else nanBits
    let write := !(ve && invalid.any)
    { deliver result with
      writeResult := write, fprfValid := write
      frfiValid :=
        if op = .fres ∨ op = .frsqrte then (cpu602 && op = .fres) || invalid.any else true }
  else if op = .frsp ∧ (b.inf || b.zero) then deliver bBits
  else if (op = .add ∨ op = .sub) ∧ (a.inf || b.inf) then
    deliver (if a.inf then aBits else signed (b.sign ^^ (op = .sub : Bool)) (bBits.extractLsb' 0 63))
  else if op.multiplies && (a.inf || c.inf) then
    deliver (signed (a.sign ^^ c.sign ^^ op.negateFinal) (posInf.extractLsb' 0 63))
  else if op = .mul ∧ (a.zero || c.zero) then deliver (signed (a.sign ^^ c.sign) 0)
  else if op.multiplies && b.inf && op ≠ .mul then
    deliver (signed (b.sign ^^ op.subtractB ^^ op.negateFinal) (posInf.extractLsb' 0 63))
  else if op = .div ∧ (b.zero && !a.zero) then
    let zx := !a.inf
    let write := !(ze && zx)
    { deliver (signed (a.sign ^^ b.sign) (posInf.extractLsb' 0 63)) with
      zx := zx, writeResult := write, fprfValid := write }
  else if op = .div ∧ (a.inf || b.inf || a.zero) then
    deliver (signed (a.sign ^^ b.sign) (if a.inf then posInf.extractLsb' 0 63 else 0))
  else if (op = .fres ∨ op = .frsqrte) ∧ b.zero then
    { deliver (signed b.sign (posInf.extractLsb' 0 63)) with
      zx := true, writeResult := !ze, fprfValid := !ze }
  else if (op = .fres ∨ op = .frsqrte) ∧ b.inf then
    { deliver (signed b.sign 0) with frfiValid := cpu602 && op = .fres }
  else if op = .frsqrte then
    let sig := rsqrtSignificand (b.exp.getLsbD 0) (b.sig.extractLsb' 48 4) &&& ~~~0x1fffffff
    let exp := -(b.exp.sshiftRight 1) - 1
    { out with
      result := 0#1 ++ (exp + 1022 + (BitVec.ofBool (sig.getLsbD 52)).setWidth 16).setWidth 11 ++
        sig.extractLsb' 0 52
      fprf := 0b00100, frfiValid := false }
  else out

end Calculate

/-! ## The module -/

/-- The low bits of a significand that a 602 operand leaves zero. -/
def sigMask (cpu602 : Bool) : BitVec 53 :=
  if cpu602 then 0xffffff#24 ++ 0#29 else BitVec.allOnes 53

/-- `dp_multiply_o`. -/
def dpMultiply (cpu602 : Bool) (q : ArithReq) : Bool :=
  !cpu602 && q.op.multiplies && !q.singleResult

/-- `conversion_o`. -/
def conversion (q : ArithReq) : Bool := q.op = .fctiw || q.op = .fctiwz

/-- `finite_o`. -/
def finite (q : ArithReq) : Bool :=
  match q.op with
  | .add | .sub => expField q.a ≠ 0x7ff && expField q.b ≠ 0x7ff
  | .mul => expField q.a ≠ 0x7ff && expField q.c ≠ 0x7ff
  | .madd | .msub | .nmadd | .nmsub =>
    expField q.a ≠ 0x7ff && expField q.b ≠ 0x7ff && expField q.c ≠ 0x7ff
  | .frsp => expField q.b ≠ 0x7ff
  | _ => false

/-- The exponent of a finite operand on either part. -/
def operandExp (cpu602 : Bool) (bits : BitVec 64) : BitVec 16 :=
  if cpu602 && expField bits = 0 then -126 else rawExp (expField bits)

/-- `operands_o`. -/
def operands (cpu602 : Bool) (q : ArithReq) : FiniteOperands :=
  let o := prepareOperands q.a q.b q.c
  { o with
    aSig := o.aSig &&& sigMask cpu602
    bSig := o.bSig &&& sigMask cpu602
    cSig := o.cSig &&& sigMask cpu602
    aExp := operandExp cpu602 q.a
    bExp := operandExp cpu602 q.b
    cExp := operandExp cpu602 q.c }

/-- `b_operand`. -/
def bOperand (cpu602 : Bool) (q : ArithReq) : Operand :=
  let b := unpackOperand q.b
  if cpu602 && expField q.b = 0 then { b with exp := b.exp + 896 } else b

/-- `special_rsp_o`. -/
def specialRsp (cpu602 : Bool) (q : ArithReq) : ArithRsp :=
  if conversion q || finite q then {}
  else calculate cpu602 q.tag q.op q.a q.b q.c (bOperand cpu602 q) q.ve q.ze

/-- `conversion_operand_o`. -/
def conversionOperand (q : ArithReq) : Special :=
  if conversion q then classifySpecial q.b else {}

/-- `conversion_too_large_o`. -/
def conversionTooLarge (q : ArithReq) : Bool := conversion q && 1055#11 ≤ expField q.b

end Fpu
end SloPPC603
