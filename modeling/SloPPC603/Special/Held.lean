import SloPPC603.Decode.Uop
import SloPPC603.Registers.Exceptions

/-!
# The held instruction

An instruction that the special lane holds for its retirement, and the exception that it raises
at its commit: `ppc_special.sv` 664–710, 862–915 and 1030–1213, with `ppc_miss_derive.sv`.  The lane
is a build with supervisor exceptions and live context, which its interrupts and pins require.

* `Cfg`, `Held`, `View` — the parameters, the captured registers and the registers that the
  instruction's exception depends on.
* `ownEvent` — the event that the commit presents, before any pin replaces it.
* `Raises` — the operations that have one.
-/

namespace SloPPC603
namespace Special

open Exceptions (Event msrSa msrAp msrPow msrTgpr msrEe msrPr msrFp msrMe msrIr msrDr msrLe)
open Flags (SpecialOp)

/-! ## Parameters -/

/-- The module's parameters and the entries of `CPU_CFG` that the lane reads. -/
structure Cfg where
  exc : Exceptions.Cfg := {}
  enableExternalInterrupts : Bool := true
  enablePinInterrupts : Bool := true
  enableTimers : Bool := true
  enableTgpr : Bool := false
  enableLittleEndian : Bool := false
  enableReservation : Bool := false
  enableCacheInstructions : Bool := false
  enableDataCache : Bool := false
  enableSdr1 : Bool := false
  enableTlbLoad : Bool := false
  enableTlbInvalidate : Bool := false
  enableRuntimeBat : Bool := false
  enableSegmentRegisters : Bool := false
  /-- `cpu_has_ice`. -/
  hasIce : Bool := false
  hasEar : Bool := false
  hid0Wmask : BitVec 32 := 0

/-- `HAS_602`. -/
def Cfg.has602 (cfg : Cfg) : Bool := cfg.exc.variant.has602

/-! ## Captured registers -/

/-- What the lane holds of one instruction. -/
structure Held where
  uop : Decode.Uop
  a : BitVec 32
  pc : BitVec 32
  ea : BitVec 32
  /-- Which word of the access it stands at: `beat_q`, `beat2_q`. -/
  beat : Bool
  beat2 : Bool
  crSnapshot : BitVec 32
  memoryResult : ResultPacket
  fetchPageMiss : PageMiss
  fetchMissEligible : Bool
  trapTaken : Bool
  blockZeroAlign : Bool
  mmuError : Bool
  tlbFillLocalError : Bool
  tlbFillInvalidate : Bool
  /-- `fpu_q`: the operation is one of the floating-point unit. -/
  fpu : Bool
  fpuDouble : Bool

/-- The registers that its exception depends on. -/
structure View where
  msr : BitVec 32
  srr1 : BitVec 32
  hid0 : BitVec 32
  sdr1 : BitVec 32
  /-- FPSCR[FEX]. -/
  fex : Bool

/-! ## Modes -/

def hid0Doze : ℕ := 23
def hid0Nap : ℕ := 22
def hid0Sleep : ℕ := 21
def hid0Ice : ℕ := 15
def hid0Icfi : ℕ := 11

/-- `LIVE_UNSUPPORTED_MASK`. -/
def liveUnsupportedMask (cfg : Cfg) : BitVec 32 :=
  (if cfg.enableExternalInterrupts then 0x00073f03 else 0x0007bf03) &&&
    ~~~(if cfg.enableTgpr then 0x00020000 else 0) &&&
    ~~~(if cfg.exc.enableMachineCheck then 0x00041002 else 0) &&&
    ~~~(if cfg.exc.enableDebugExceptions then 0x00000600 else 0) &&&
    ~~~(if cfg.exc.enableFullDecode then 0x00002900 else 0) &&&
    ~~~(if cfg.enableLittleEndian then 0x00010001 else 0)

/-- `LIVE_SUPPORTED_MASK`. -/
def liveSupportedMask (cfg : Cfg) : BitVec 32 :=
  (if cfg.enableExternalInterrupts then 0x0000c070 else 0x00004070) |||
    (if cfg.enableTgpr then 0x00020000 else 0) |||
    (if cfg.exc.enableMachineCheck then 0x00041002 else 0) |||
    (if cfg.exc.enableDebugExceptions then 0x00000600 else 0) |||
    (if cfg.exc.enableFullDecode then 0x00000900 else 0) |||
    (if cfg.exc.enableFpu then 0x00002000 else 0) |||
    (if cfg.enableLittleEndian then 0x00010001 else 0) |||
    (if cfg.has602 then Exceptions.msr602Mask else 0)

/-- `live_mode_supported`. -/
def liveModeSupported (cfg : Cfg) (value : BitVec 32) : Bool :=
  value &&& liveUnsupportedMask cfg = 0

/-- `power_mode_unsupported`: more than one mode, or any that nothing could end. -/
def powerModeUnsupported (cfg : Cfg) (pow : Bool) (hid0 : BitVec 32) : Bool :=
  let doze := hid0.getLsbD hid0Doze
  let nap := hid0.getLsbD hid0Nap
  let sleep := hid0.getLsbD hid0Sleep
  pow && if cfg.enableExternalInterrupts && cfg.exc.enableMachineCheck && cfg.exc.enableFullDecode
    then (doze && nap) || (doze && sleep) || (nap && sleep)
    else doze || nap || sleep

/-! ## Page misses -/

/-- `ppc_miss_derive`: the segment is an ordinary one. -/
def missDeriveValid (sr : BitVec 32) : Bool := !sr.getLsbD 31

/-! ## The instruction's own event -/

namespace Held

variable (cfg : Cfg) (h : Held) (v : View)

/-- A memory operation. -/
def memory : Bool := h.uop.specialOp = .load || h.uop.specialOp = .store

/-- `fpu_access`. -/
def fpuAccess : Bool := cfg.exc.enableFpu && h.fpu && h.memory

/-- `mem_nbytes`. -/
def memNbytes : BitVec 3 :=
  if h.uop.memLeft && h.uop.memBytes ≠ 0 then h.uop.memBytes.setWidth 3
  else match h.uop.memSize with
    | .byte => 1
    | .half => 2
    | .word => 4

/-- `le_access`. -/
def leAccess : Bool :=
  cfg.enableLittleEndian && v.msr.getLsbD msrLe &&
    (h.fpuAccess cfg || (h.uop.cacheOp = .none && !h.uop.blockZero))

/-- `first_ea`. -/
def firstEa : BitVec 32 :=
  let accessBytes : BitVec 4 :=
    if h.fpuAccess cfg && h.fpuDouble then 8 else h.memNbytes.setWidth 4
  if h.leAccess cfg v then (h.ea + (accessBytes - 1).setWidth 32) ^^^ 7 else h.ea

/-- `access_ea`. -/
def accessEa : BitVec 32 :=
  if !h.beat then h.firstEa cfg v
  else if h.leAccess cfg v then
    h.ea.extractLsb' 3 29 ++ BitVec.ofBool (!h.ea.getLsbD 2) ++ 0#2
  else (h.ea.extractLsb' 2 30 + if h.beat2 then 2 else 1) ++ 0#2

/-- `fetch_page_miss_opcode`. -/
def fetchPageMissOpcode : Bool := h.uop.specialOp = .isi && h.uop.fetchFault = .pageMiss

/-- `data_page_miss_opcode`. -/
def dataPageMissOpcode : Bool :=
  h.memory && (h.memoryResult.dataFault = .pageMiss || h.memoryResult.dataFault = .pageChanged)

/-- `miss_context`. -/
def missContext : PageMiss :=
  if h.fetchPageMissOpcode then h.fetchPageMiss else h.memoryResult.pageMiss

/-- `miss_provenance_valid`. -/
def missProvenanceValid : Bool :=
  let m := h.missContext
  if h.fetchPageMissOpcode then
    m.ea = h.pc && m.ir && m.ir = v.msr.getLsbD msrIr && m.dr = v.msr.getLsbD msrDr &&
      m.pr = v.msr.getLsbD msrPr && !m.write && !m.sr.getLsbD 28
  else
    m.ea = (h.accessEa cfg v).extractLsb' 2 30 ++ 0#2 && m.ir = v.msr.getLsbD msrIr && m.dr &&
      m.dr = v.msr.getLsbD msrDr && m.pr = v.msr.getLsbD msrPr &&
      m.write = (h.uop.specialOp = .store) &&
      (!(h.memoryResult.dataFault = .pageChanged) || h.uop.specialOp = .store)

/-- `miss_eligible`. -/
def missEligible : Bool :=
  cfg.exc.enableTlbMissExceptions && missDeriveValid h.missContext.sr &&
    h.missProvenanceValid cfg v

/-- `fetch_machine_check`. -/
def fetchMachineCheck : Bool :=
  cfg.exc.enableMachineCheck && h.uop.specialOp = .isi &&
    (h.uop.fetchFault = .machineCheck || h.uop.fetchFault = .teaRepeat)

/-- `data_machine_check`. -/
def dataMachineCheck : Bool :=
  cfg.exc.enableMachineCheck && h.memory && !h.memoryResult.fault &&
    h.memoryResult.dataFault = .machineCheck

/-- `machine_check_event`. -/
def machineCheckEvent : Bool := h.fetchMachineCheck cfg || h.dataMachineCheck cfg

/-- `dsi_event`. -/
def dsiEvent : Bool :=
  h.memory && (h.memoryResult.dataFault = .dsiProtection ||
    h.memoryResult.dataFault = .dsiDirectStore ||
    h.memoryResult.dataFault = .dsiDirectStoreError || h.memoryResult.dataFault = .dsiExternal)

/-- `ds_align_event`. -/
def dsAlignEvent : Bool := h.memory && h.memoryResult.dataFault = .alignmentDirectStore

/-- `block_zero_event`. -/
def blockZeroEvent : Bool :=
  cfg.enableCacheInstructions && h.uop.blockZero && h.uop.specialOp = .store &&
    !h.memoryResult.fault && h.memoryResult.dataFault = .ok &&
    (!cfg.enableDataCache || h.blockZeroAlign)

/-- `mtmsr_unsupported`. -/
def mtmsrUnsupported : Bool :=
  !liveModeSupported cfg h.a || powerModeUnsupported cfg (h.a.getLsbD msrPow) v.hid0

/-- `mtmsr_value`. -/
def mtmsrValue : BitVec 32 :=
  (v.msr &&& ~~~Exceptions.msrMask cfg.exc) ||| (h.a &&& liveSupportedMask cfg)

/-- `mtmsr_fp_enable`. -/
def mtmsrFpEnable : Bool :=
  cfg.exc.enableFpu && v.fex && v.msr &&& 0x00000900 = 0 && h.mtmsrValue cfg v &&& 0x00000900 ≠ 0

/-- `rfi_fp_enable`. -/
def rfiFpEnable : Bool :=
  cfg.exc.enableFpu && v.fex && !v.msr.getLsbD msrPr && v.msr &&& 0x00000900 = 0 &&
    v.srr1 &&& 0x00000900 ≠ 0

/-- `rfi_state_unsupported`. -/
def rfiStateUnsupported : Bool :=
  !liveModeSupported cfg (Exceptions.rfiMsr v.msr v.srr1 (Exceptions.msrMask cfg.exc))

/-- An event that the commit presents when its condition holds. -/
def present (valid : Bool) (kind : Event) : Option Event := if valid then some kind else none

/-- `exception_event_valid` and its kind, before `pin_preempt`. -/
def ownEvent : Option Event :=
  match h.uop.specialOp with
  | .isi =>
    if h.fetchMachineCheck cfg then
      present (v.msr.getLsbD msrMe && h.uop.fetchFault ≠ .teaRepeat) .machineCheck
    else if cfg.exc.enableDebugExceptions && h.uop.fetchFault = .iabr then some .iabr
    else if h.fetchPageMissOpcode then
      present (cfg.exc.enableTlbMissExceptions && h.fetchMissEligible) .tlbIMiss
    else some .isi
  | .alignment => some .alignment
  | .load | .store =>
    if h.dataMachineCheck cfg then present (v.msr.getLsbD msrMe) .machineCheck
    else if h.dataPageMissOpcode then
      present (!h.memoryResult.fault && h.missEligible cfg v)
        (if h.uop.specialOp = .store then .tlbDStore else .tlbDLoad)
    else if h.blockZeroEvent cfg || h.dsAlignEvent then some .alignment
    else present h.dsiEvent .dsi
  | .sc => some .sc
  | .rfi =>
    present (!rfiStateUnsupported cfg v) (if rfiFpEnable cfg v then .rfiFpEnable else .rfi)
  | .mtmsr => present (!h.mtmsrUnsupported cfg v && h.mtmsrFpEnable cfg v) .programFpEnable
  | .programIllegal => some .programIllegal
  | .programPriv => some .programPriv
  | .trap => present (cfg.exc.enableFullDecode && h.trapTaken) .programTrap
  | .fpUnavailable => present cfg.exc.enableFullDecode .fpUnavailable
  | .emulationTrap => present (cfg.exc.enableFullDecode && cfg.has602) .emulationTrap
  | .fpEnabled => present cfg.exc.enableFpu .programFp
  | .esa => present (cfg.exc.enableFullDecode && cfg.has602) .esa
  | .dsa => present (cfg.exc.enableFullDecode && cfg.has602) .dsa
  | _ => none

/-! ## Facts -/

/-- The operations that can raise an event. -/
def raises : Bool :=
  h.uop.specialOp ∈ [SpecialOp.isi, .alignment, .load, .store, .sc, .rfi, .mtmsr, .programIllegal,
    .programPriv, .trap, .fpUnavailable, .emulationTrap, .fpEnabled, .esa, .dsa]

variable {cfg h v}

theorem raises_of_ownEvent {e : Event} (he : h.ownEvent cfg v = some e) : h.raises = true := by
  unfold ownEvent at he
  unfold raises
  split at he <;> simp_all

/-- The instructions that a machine check may stop. -/
theorem machineCheckEvent_cases (hcheck : h.machineCheckEvent cfg = true) :
    (h.uop.specialOp = .isi ∧ h.fetchMachineCheck cfg = true) ∨
      ((h.uop.specialOp = .load ∨ h.uop.specialOp = .store) ∧ h.dataMachineCheck cfg = true) := by
  simp only [machineCheckEvent, Bool.or_eq_true] at hcheck
  rcases hcheck with hf | hd
  · refine Or.inl ⟨?_, hf⟩
    simp only [fetchMachineCheck, Bool.and_eq_true, decide_eq_true_eq] at hf
    exact hf.1.2
  · refine Or.inr ⟨?_, hd⟩
    simp only [dataMachineCheck, memory, Bool.and_eq_true, Bool.or_eq_true,
      decide_eq_true_eq] at hd
    exact hd.1.1.2

theorem raises_of_machineCheck (hcheck : h.machineCheckEvent cfg = true) : h.raises = true := by
  rcases machineCheckEvent_cases hcheck with ⟨hop, -⟩ | ⟨hop | hop, -⟩ <;> simp [raises, hop]

/-- A machine check of the instruction is its event, or it checkstops. -/
theorem ownEvent_machineCheck (hcheck : h.machineCheckEvent cfg = true) :
    h.ownEvent cfg v = some .machineCheck ∨ h.ownEvent cfg v = none := by
  have hpresent : ∀ b, present b .machineCheck = some .machineCheck ∨
      present b .machineCheck = none := by decide
  rcases machineCheckEvent_cases hcheck with ⟨hop, hf⟩ | ⟨hop | hop, hd⟩
  · rw [ownEvent, hop]
    simp only [hf, if_true]
    exact hpresent _
  all_goals
    rw [ownEvent, hop]
    simp only [hd, if_true]
    exact hpresent _

/-- With MSR[ME] set it checkstops only on a repeated TEA. -/
theorem ownEvent_enabled (hcheck : h.machineCheckEvent cfg = true)
    (hme : v.msr.getLsbD msrMe = true) (hrepeat : h.uop.fetchFault ≠ .teaRepeat) :
    h.ownEvent cfg v = some .machineCheck := by
  rcases machineCheckEvent_cases hcheck with ⟨hop, hf⟩ | ⟨hop | hop, hd⟩
  · rw [ownEvent, hop]
    simp [hf, hme, hrepeat, present]
  all_goals
    rw [ownEvent, hop]
    simp [hd, hme, present]

end Held

end Special
end SloPPC603
