import SloPPC603.Decode.Decoder

/-!
# Decoded operations in the instruction queue

The queue stores the form of an immediate, a rotate mask and a branch displacement, and
rebuilds their values from the word: `iq_pack_imm` and `iq_unpack_imm` of `ppc_pkg.sv`,
`iq_pack` and `iq_unpack` of `ppc_core.sv`.

* `Rebuilt` — an operation whose immediate, mask and displacement are those the word's
  opcodes call for.
* `decode_rebuilt` — the decoder's are.
* `iqUnpack_iqPack_decode` — what is stored of a decoded word loses nothing.
-/

namespace SloPPC603
namespace Decode

open Flags (DecodeConfig SpecialOp primary xo xo9 bits bit selector validBo arithmeticXo unaryXo)

/-! ## Packing -/

/-- `iq_imm_form_t`, by its codes. -/
inductive ImmForm
  | zero | sign16 | zero16 | high16 | zero5 | ones
  deriving DecidableEq, Repr, Inhabited

/-- The code of a form. -/
def ImmForm.code : ImmForm → BitVec 3
  | zero => 0
  | sign16 => 1
  | zero16 => 2
  | high16 => 3
  | zero5 => 4
  | ones => 5

/-- The form of an immediate. -/
def immForm (primary xo : ℕ) : ImmForm :=
  match primary with
  | 3 | 7 | 8 | 11 | 12 | 13 | 14 | 32 | 33 | 34 | 35 | 36 | 37 | 38 | 39 | 40 | 41 | 42 | 43
  | 44 | 45 | 46 | 47 | 48 | 49 | 50 | 51 | 52 | 53 | 54 | 55 => .sign16
  | 10 | 24 | 26 | 28 => .zero16
  | 15 | 25 | 27 | 29 => .high16
  | 21 => .zero5
  | 31 => if xo = 824 then .zero5 else if xo % 512 = 234 || xo % 512 = 232 then .ones else .zero
  | _ => .zero

/-- `iq_pack_imm`. -/
def iqPackImm (u : Uop) (primary xo : ℕ) : Uop :=
  { u with imm := (if u.useImm then immForm primary xo else .zero).code.setWidth 32 }

/-- `iq_unpack_imm`. -/
def iqUnpackImm (u : Uop) (low : BitVec 16) : Uop :=
  { u with
    imm :=
      match (u.imm.extractLsb' 0 3).toNat with
      | 1 => low.signExtend 32
      | 2 => low.setWidth 32
      | 3 => low ++ 0#16
      | 4 => (low.extractLsb' 11 5).setWidth 32
      | 5 => 0xffffffff
      | _ => 0 }

/-- The rotates. -/
def rotates (insn : BitVec 32) : Bool := primary insn = 20 || primary insn = 21 || primary insn = 23

/-- The conditional branches the decoder knows. -/
def branches (insn : BitVec 32) : Bool := primary insn = 16 && validBo (bits insn 21 5)

/-- `iq_pack`. -/
def iqPack (u : Uop) (insn : BitVec 32) : Uop :=
  { iqPackImm u (primary insn) (xo insn) with
    mask := 0#31 ++ BitVec.ofBool (rotates insn)
    branchDisp := 0#30 ++ BitVec.ofBool (branches insn) ++ BitVec.ofBool (primary insn = 18) }

/-- `iq_unpack`. -/
def iqUnpack (u : Uop) (insn : BitVec 32) : Uop :=
  { iqUnpackImm u (insn.extractLsb' 0 16) with
    mask := if u.mask.getLsbD 0 then rotateMask insn else 0
    branchDisp :=
      if u.branchDisp.getLsbD 0 then disp24 insn
      else if u.branchDisp.getLsbD 1 then disp14 insn else 0 }

/-! ## What the word rebuilds -/

/-- The value of an immediate of a form. -/
def ImmForm.value (insn : BitVec 32) : ImmForm → BitVec 32
  | zero => 0
  | sign16 => simm insn
  | zero16 => uimm insn
  | high16 => himm insn
  | zero5 => shiftImm insn
  | ones => 0xffffffff

/-- An operation whose immediate, mask and displacement are those the word's opcodes call
for, and which only the sequencer makes skip memory. -/
structure Rebuilt (insn : BitVec 32) (u : Uop) : Prop where
  imm : u.imm =
    if u.useImm then (immForm (primary insn) (xo insn)).value insn else 0
  mask : u.mask = if rotates insn then rotateMask insn else 0
  branchDisp : u.branchDisp =
    if primary insn = 18 then disp24 insn else if branches insn then disp14 insn else 0
  memSkip : u.memSkip = false

/-- Unpacking an immediate's form gives its value. -/
theorem iqUnpackImm_code (insn : BitVec 32) (u : Uop) (form : ImmForm) :
    (iqUnpackImm { u with imm := form.code.setWidth 32 } (insn.extractLsb' 0 16)).imm =
      form.value insn := by
  cases form with
  | zero5 =>
    show ((insn.extractLsb' 0 16).extractLsb' 11 5).setWidth 32 = (insn.extractLsb' 11 5).setWidth 32
    congr 1
    ext k hk
    simp
  | zero | sign16 | zero16 | high16 | ones => rfl

/-- What is stored of an operation the word rebuilds loses nothing. -/
theorem iqUnpack_iqPack {insn : BitVec 32} {u : Uop} (h : Rebuilt insn u) :
    iqUnpack (iqPack u insn) insn = u := by
  have himm : (iqUnpack (iqPack u insn) insn).imm = u.imm := by
    rw [h.imm]
    refine (iqUnpackImm_code insn u _).trans ?_
    cases u.useImm <;> rfl
  have hmask : (iqUnpack (iqPack u insn) insn).mask = u.mask := by
    rw [h.mask]
    show (if (0#31 ++ BitVec.ofBool (rotates insn)).getLsbD 0 then rotateMask insn else 0) = _
    cases rotates insn <;> rfl
  have hdisp : (iqUnpack (iqPack u insn) insn).branchDisp = u.branchDisp := by
    rw [h.branchDisp]
    show (if (0#30 ++ BitVec.ofBool (branches insn) ++ BitVec.ofBool (primary insn = 18)).getLsbD 0
      then disp24 insn
      else if (0#30 ++ BitVec.ofBool (branches insn) ++
        BitVec.ofBool (primary insn = 18)).getLsbD 1 then disp14 insn else 0) = _
    by_cases h18 : primary insn = 18
    · cases branches insn <;> simp [h18]
    · cases branches insn <;> simp [h18]
  calc iqUnpack (iqPack u insn) insn
      = { u with
          imm := (iqUnpack (iqPack u insn) insn).imm
          mask := (iqUnpack (iqPack u insn) insn).mask
          branchDisp := (iqUnpack (iqPack u insn) insn).branchDisp } := rfl
    _ = u := by rw [himm, hmask, hdisp]

/-! ## The decoder's operations are rebuilt -/

section Arms

variable {cfg : DecodeConfig} {insn : BitVec 32} {u : Uop}

/-- A word without a rotate mask or a displacement. -/
def Quiet (insn : BitVec 32) : Prop := primary insn ∉ [16, 18, 20, 21, 23]

theorem rebuilt_quiet (hq : Quiet insn)
    (himm : u.imm = if u.useImm then (immForm (primary insn) (xo insn)).value insn else 0)
    (hmask : u.mask = 0) (hdisp : u.branchDisp = 0) (hskip : u.memSkip = false) :
    Rebuilt insn u := by
  simp only [Quiet, List.mem_cons, not_or] at hq
  exact ⟨himm, by simp [hmask, rotates, hq], by simp [hdisp, branches, hq], hskip⟩

/-- An operation without an immediate. -/
theorem rebuilt_plain (hq : Quiet insn) (huse : u.useImm = false) (himm : u.imm = 0)
    (hmask : u.mask = 0) (hdisp : u.branchDisp = 0) (hskip : u.memSkip = false) :
    Rebuilt insn u :=
  rebuilt_quiet hq (by rw [huse, himm]; rfl) hmask hdisp hskip

theorem rebuilt_undecoded (hq : Quiet insn) : Rebuilt insn (undecoded insn) :=
  rebuilt_plain hq rfl rfl rfl rfl rfl

/-- A choice between two rebuilt operations. -/
theorem rebuilt_ite {c : Prop} [Decidable c] {a b : Uop} (ha : Rebuilt insn a)
    (hb : Rebuilt insn b) : Rebuilt insn (if c then a else b) := by
  split_ifs
  · exact ha
  · exact hb

/-- A guarded form without an immediate. -/
theorem rebuilt_guarded {c : Prop} [Decidable c] (hq : Quiet insn) (huse : u.useImm = false)
    (himm : u.imm = 0) (hmask : u.mask = 0) (hdisp : u.branchDisp = 0)
    (hskip : u.memSkip = false) : Rebuilt insn (if c then u else undecoded insn) :=
  rebuilt_ite (rebuilt_plain hq huse himm hmask hdisp hskip) (rebuilt_undecoded hq)

theorem rebuilt_decodeFp (hq : Quiet insn) : Rebuilt insn (decodeFp cfg insn) := by
  have hplain := @rebuilt_plain insn
  exact rebuilt_ite (rebuilt_ite (hplain hq rfl rfl rfl rfl rfl)
    (rebuilt_ite (hplain hq rfl rfl rfl rfl rfl) (hplain hq rfl rfl rfl rfl rfl)))
    (rebuilt_undecoded hq)

theorem rebuilt_decode19 (hq : Quiet insn) : Rebuilt insn (decode19 cfg insn) := by
  unfold decode19
  split
  case h_14 => exact rebuilt_undecoded hq
  all_goals exact rebuilt_guarded hq rfl rfl rfl rfl rfl

/-- The nine-bit opcode is the ten-bit one without OE. -/
theorem xo9_eq (insn : BitVec 32) : xo9 insn = xo insn % 512 := by
  unfold xo9 xo
  simp [BitVec.extractLsb'_toNat]

theorem rebuilt_decodeArithmetic (hx : primary insn = 31) (hq : Quiet insn)
    (harith : arithmeticXo (xo9 insn) = true) : Rebuilt insn (decodeArithmetic insn) := by
  have h824 : xo insn ≠ 824 := by
    intro h
    rw [xo9_eq, h] at harith
    cases harith
  have hform : immForm 31 (xo insn) =
      if xo9 insn = 234 || xo9 insn = 232 then .ones else .zero := by
    rw [xo9_eq]
    simp only [immForm, if_neg h824]
  refine rebuilt_ite (rebuilt_quiet hq ?_ rfl rfl rfl) (rebuilt_undecoded hq)
  rw [hx, hform]
  show (if xo9 insn = 234 || xo9 insn = 232 then (0xffffffff : BitVec 32) else 0) =
    if unaryXo (xo9 insn) then _ else 0
  by_cases hones : (xo9 insn = 234 || xo9 insn = 232) = true
  · have hunary : unaryXo (xo9 insn) = true := by
      simp only [Bool.or_eq_true, decide_eq_true_eq] at hones
      rcases hones with h | h
      · rw [h]; rfl
      · rw [h]; rfl
    rw [if_pos hones, if_pos hones, if_pos hunary]
    rfl
  · rw [if_neg hones, if_neg hones]
    split_ifs <;> rfl

/-- An X form whose immediate is zero. -/
theorem rebuilt_zero (hx : primary insn = 31) (hq : Quiet insn)
    (hform : immForm 31 (xo insn) = .zero) (himm : u.imm = 0) (hmask : u.mask = 0)
    (hdisp : u.branchDisp = 0) (hskip : u.memSkip = false) : Rebuilt insn u := by
  refine rebuilt_quiet hq ?_ hmask hdisp hskip
  rw [himm, hx, hform]
  cases u.useImm <;> rfl

theorem rebuilt_decodeCache (hx : primary insn = 31) (hq : Quiet insn) :
    Rebuilt insn (decodeCache cfg insn) := by
  refine rebuilt_ite ?_ (rebuilt_undecoded hq)
  split
  case h_1 hxo =>
    exact rebuilt_ite (rebuilt_plain hq rfl rfl rfl rfl rfl)
      (rebuilt_zero hx hq (by rw [hxo]; rfl) rfl rfl rfl rfl)
  case h_2 hxo =>
    exact rebuilt_ite (rebuilt_plain hq rfl rfl rfl rfl rfl)
      (rebuilt_zero hx hq (by rw [hxo]; rfl) rfl rfl rfl rfl)
  all_goals exact rebuilt_plain hq rfl rfl rfl rfl rfl

theorem rebuilt_decode31x (hx : primary insn = 31) (hq : Quiet insn) :
    Rebuilt insn (decode31x cfg insn) := by
  unfold decode31x
  split
  all_goals first
    | exact rebuilt_undecoded hq
    | exact rebuilt_guarded hq rfl rfl rfl rfl rfl
    | exact rebuilt_plain hq rfl rfl rfl rfl rfl
    | exact rebuilt_decodeCache hx hq
    | rename_i hxo
      exact rebuilt_ite (rebuilt_zero hx hq (by rw [hxo]; rfl) rfl rfl rfl rfl)
        (rebuilt_undecoded hq)
    | rename_i hxo
      exact rebuilt_ite (rebuilt_guarded hq rfl rfl rfl rfl rfl)
        (rebuilt_ite (rebuilt_zero hx hq (by rw [hxo]; rfl) rfl rfl rfl rfl)
          (rebuilt_undecoded hq))
    | -- sraw and srawi
      rename_i hxo
      exact rebuilt_quiet hq (by rw [hx, hxo]; rfl) rfl rfl rfl

theorem quiet_of_primary {x : ℕ} (hx : primary insn = x) (h : x ∉ [16, 18, 20, 21, 23]) :
    Quiet insn := by
  rwa [Quiet, hx]

theorem bit_26 (insn : BitVec 32) : bit insn 26 = (primary insn).testBit 0 := by
  simp [bit, primary, BitVec.testBit_toNat]

/-- The immediate of `andi.` and its kin follows the low bit of the primary opcode. -/
theorem rebuilt_logicalImm {x : ℕ} (hx : primary insn = x) (hq : Quiet insn)
    (hform : immForm x (xo insn) = if x.testBit 0 then .high16 else .zero16)
    (huse : u.useImm = true) (himm : u.imm = if bit insn 26 then himm insn else uimm insn)
    (hmask : u.mask = 0) (hdisp : u.branchDisp = 0) (hskip : u.memSkip = false) :
    Rebuilt insn u := by
  refine rebuilt_quiet hq ?_ hmask hdisp hskip
  rw [huse, himm, hx, hform, bit_26, hx, if_pos rfl]
  split_ifs
  · rfl
  · rfl

/-- The rotates take their mask from the word. -/
theorem rebuilt_rotate {x : ℕ} (hx : primary insn = x) (hrot : x = 20 ∨ x = 21 ∨ x = 23)
    (himm : u.imm = if u.useImm then (immForm x (xo insn)).value insn else 0)
    (hmask : u.mask = rotateMask insn) (hdisp : u.branchDisp = 0) (hskip : u.memSkip = false) :
    Rebuilt insn u := by
  subst hx
  have hne : primary insn ≠ 18 ∧ primary insn ≠ 16 := by omega
  have hmem : rotates insn = true := by simpa [rotates, or_assoc] using hrot
  exact ⟨himm, by rw [hmask, hmem]; rfl, by simp [hdisp, branches, hne], hskip⟩

theorem rebuilt_decodeForm : Rebuilt insn (decodeForm cfg insn) := by
  unfold decodeForm
  split
  case h_51 =>
    refine rebuilt_undecoded ?_
    simp only [Quiet, List.mem_cons, not_or]
    exact ⟨‹_›, ‹_›, ‹_›, ‹_›, ‹_›, List.not_mem_nil⟩
  all_goals rename_i hx
  case h_25 => exact rebuilt_rotate hx (by decide) rfl rfl rfl rfl
  case h_28 =>
    exact ⟨rfl, by simp [rotates, hx, legal, undecoded], by rw [if_pos hx], rfl⟩
  case h_50 =>
    have hq : Quiet insn := quiet_of_primary hx (by decide)
    by_cases harith : arithmeticXo (xo9 insn) = true
    · rw [if_pos harith]
      exact rebuilt_decodeArithmetic hx hq harith
    · rw [if_neg harith]
      exact rebuilt_decode31x hx hq
  case h_29 =>
    have hbranch : branches insn = validBo (bits insn 21 5) := by simp [branches, hx]
    have hmask : (0 : BitVec 32) = if rotates insn then rotateMask insn else 0 := by
      simp [rotates, hx]
    split_ifs with hbo
    · exact ⟨rfl, hmask, by simp [hbranch, hbo, hx], rfl⟩
    · exact ⟨rfl, hmask, by simp [hbranch, hbo, hx, undecoded], rfl⟩
  all_goals first
    | exact rebuilt_guarded (quiet_of_primary hx (by decide)) rfl rfl rfl rfl rfl
    | exact rebuilt_decodeFp (quiet_of_primary hx (by decide))
    | exact rebuilt_decode19 (quiet_of_primary hx (by decide))
    | exact rebuilt_quiet (quiet_of_primary hx (by decide)) (by rw [hx]; rfl) rfl rfl rfl
    | exact rebuilt_ite
        (rebuilt_quiet (quiet_of_primary hx (by decide)) (by rw [hx]; rfl) rfl rfl rfl)
        (rebuilt_undecoded (quiet_of_primary hx (by decide)))
    | exact rebuilt_logicalImm hx (quiet_of_primary hx (by decide)) rfl rfl rfl rfl rfl rfl
    | exact rebuilt_rotate hx (by decide) (by rw [hx]; rfl) rfl rfl rfl

/-- The decoder knows every rotate and every branch it packs a displacement for. -/
theorem quiet_of_illegal (h : (decodeForm cfg insn).illegal = true) :
    rotates insn = false ∧ primary insn ≠ 18 ∧ branches insn = false := by
  refine ⟨?_, ?_, ?_⟩
  · by_contra hrot
    simp only [rotates, Bool.not_eq_false, Bool.or_eq_true, decide_eq_true_eq] at hrot
    rcases hrot with (hx | hx) | hx
    all_goals
      simp only [decodeForm, hx] at h
      cases h
  · intro hx
    simp only [decodeForm, hx] at h
    cases h
  · by_contra hbr
    simp only [branches, Bool.not_eq_false, Bool.and_eq_true, decide_eq_true_eq] at hbr
    simp only [decodeForm, hbr.1, if_pos hbr.2] at h
    cases h

theorem rebuilt_decodeIllegal : Rebuilt insn (decodeIllegal cfg insn) := by
  unfold decodeIllegal
  split_ifs with hill
  · obtain ⟨hrot, h18, hbr⟩ := quiet_of_illegal (Bool.and_eq_true_iff.1 hill).2
    exact ⟨rfl, by simp [hrot], by simp [h18, hbr], rfl⟩
  · exact rebuilt_decodeForm

end Arms

/-- **The word rebuilds what the decoder made of it.** -/
theorem decode_rebuilt (cfg : DecodeConfig) (insn : BitVec 32) :
    Rebuilt insn (decode cfg insn) := by
  have hform : Rebuilt insn (decodeIllegal cfg insn) := rebuilt_decodeIllegal
  unfold decode
  refine rebuilt_ite ⟨?_, ?_, ?_, ?_⟩ hform
  · exact hform.imm
  · exact hform.mask
  · exact hform.branchDisp
  · exact hform.memSkip

/-- **The instruction queue loses nothing of a decoded word**, whatever the build decodes. -/
theorem iqUnpack_iqPack_decode (cfg : DecodeConfig) (insn : BitVec 32) :
    iqUnpack (iqPack (decode cfg insn) insn) insn = decode cfg insn :=
  iqUnpack_iqPack (decode_rebuilt cfg insn)

end Decode
end SloPPC603
