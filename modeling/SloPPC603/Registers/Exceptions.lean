import SloPPC603.Pkg
import SloPPC603.Clocked.Machine
import SloPPC603.Words.Fields

/-!
# Exception state

MSR, SRR0, SRR1 and the 602's ESASRR over one committed event: `ppc_exception_state.sv`.

* `step` — the clock edge.
* `savedMsr`, `savedBits` — what an event saves in SRR1.
* `Inverse`, `inverse` — an entry and the `rfi` after it, and what a rejected event leaves.
-/

namespace SloPPC603
namespace Exceptions

open Words

/-! ## Parameters -/

/-- `cpu_variant_e`. -/
inductive CpuVariant
  | pid7v603e | pid6603e | ec603e | cpu603 | cpu602
  deriving DecidableEq

/-- `cpu_has_602_ext`. -/
def CpuVariant.has602 (v : CpuVariant) : Bool := v = .cpu602

/-- `has_srr1_key`: the 603 has no SRR1[KEY]. -/
def CpuVariant.hasSrr1Key (v : CpuVariant) : Bool := v ≠ .cpu603

/-- The module's parameters. -/
structure Cfg where
  variant : CpuVariant := .pid7v603e
  resetMsr : BitVec 32 := 0x40
  resetSrr0 : BitVec 32 := 0
  resetSrr1 : BitVec 32 := 0
  enableTlbMissExceptions : Bool := false
  enableMachineCheck : Bool := false
  enableDebugExceptions : Bool := false
  enableFullDecode : Bool := false
  enableFpu : Bool := false

/-! ## MSR -/

def msrAp : ℕ := 23
def msrSa : ℕ := 22
def msrPow : ℕ := 18
def msrTgpr : ℕ := 17
def msrIle : ℕ := 16
def msrEe : ℕ := 15
def msrPr : ℕ := 14
def msrFp : ℕ := 13
def msrMe : ℕ := 12
def msrIp : ℕ := 6
def msrIr : ℕ := 5
def msrDr : ℕ := 4
def msrRi : ℕ := 1
def msrLe : ℕ := 0

/-- `MSR_SRR1_MASK`. -/
def msrSrr1Mask : BitVec 32 := 0x87c0ffff

/-- `MSR_602_MASK`. -/
def msr602Mask : BitVec 32 := 0x00c00000

/-- `msr_implemented`. -/
def msrImplemented (has602 : Bool) : BitVec 32 := 0x0007ff73 ||| if has602 then msr602Mask else 0

/-- `rfi_msr`. -/
def rfiMsr (old srr1 implemented : BitVec 32) : BitVec 32 :=
  setBit (((old &&& ~~~msrSrr1Mask) ||| (srr1 &&& msrSrr1Mask)) &&& implemented) msrTgpr false

/-- `MSR_MASK`. -/
def msrMask (cfg : Cfg) : BitVec 32 := msrImplemented cfg.variant.has602

/-- `MSR_STORED_MASK`: without an FPU, full decode never stores FP. -/
def msrStoredMask (cfg : Cfg) : BitVec 32 :=
  if cfg.enableFullDecode && !cfg.enableFpu then msrMask cfg &&& ~~~(1#32 <<< msrFp) else msrMask cfg

/-- `SRR1_SAVE_MASK`. -/
def srr1SaveMask : BitVec 32 := msrSrr1Mask &&& ~~~msr602Mask

/-! ## Events -/

/-- `exception_event_t`. -/
inductive Event
  | sc | programIllegal | programPriv | rfi | alignment | isi | external | decrementer | dsi
  | tlbIMiss | tlbDLoad | tlbDStore | machineCheck | trace | iabr | programTrap | fpUnavailable
  | softReset | smi | machineCheckPin | machineCheckApe | emulationTrap | esa | dsa | watchdog
  | programFp | machineCheckDpe | programFpEnable | rfiFpEnable
  /-- A code that names no event. -/
  | unknown
  deriving DecidableEq

/-- The inputs of one cycle. -/
structure Input where
  rstN : Bool := true
  eventValid : Bool := false
  eventKind : Event := .sc
  eventPc : BitVec 32 := 0
  eventIsiCause : FetchFault := .ok
  eventMissCr0 : BitVec 4 := 0
  eventMissKey : Bool := false
  eventMissWay : Bool := false
  eventEsaEnable : Bool := false
  ibr : BitVec 16 := 0
  resultReady : Bool := false
  stateLoadValid : Bool := false
  /-- MSR, SRR0, SRR1, ESASRR. -/
  stateLoadEnable : BitVec 4 := 0
  stateLoadMsr : BitVec 32 := 0
  stateLoadSrr0 : BitVec 32 := 0
  stateLoadSrr1 : BitVec 32 := 0
  stateLoadEsasrr : BitVec 32 := 0

/-- The registers. -/
structure State where
  msr : BitVec 32
  srr0 : BitVec 32
  srr1 : BitVec 32
  esasrr : BitVec 32
  resultValid : Bool
  resultSupported : Bool
  resultTarget : BitVec 32

section Signals

variable (cfg : Cfg) (s : State) (i : Input)

/-- `slot_available`. -/
def slotAvailable : Bool := !s.resultValid || i.resultReady

/-- `event_fire`. -/
def eventFire : Bool := i.eventValid && i.rstN && slotAvailable s i

/-- `state_load_fire`. -/
def stateLoadFire : Bool := i.stateLoadValid && i.rstN && slotAvailable s i && !i.eventValid

/-- `rfi_new_msr`. -/
def rfiNewMsr : BitVec 32 := rfiMsr s.msr s.srr1 (msrMask cfg) &&& msrStoredMask cfg

/-- `exception_srr1`. -/
def exceptionSrr1 (old cause : BitVec 32) : BitVec 32 := (old &&& srr1SaveMask) ||| cause

/-- `miss_srr1`. -/
def missSrr1 (savedHigh : BitVec 5) (savedLow : BitVec 16) (cr0 : BitVec 4)
    (key instruction way storeAccess : Bool) : BitVec 32 :=
  cr0 ++ 0#1 ++ savedHigh ++ 0#2 ++ BitVec.ofBool key ++ BitVec.ofBool instruction ++
    BitVec.ofBool way ++ BitVec.ofBool storeAccess ++ savedLow

/-- `exception_msr`. -/
def exceptionMsr (old : BitVec 32) : BitVec 32 :=
  let next := [msrAp, msrSa, msrPow, msrTgpr, msrEe, msrPr, msrFp].foldl
    (fun m k => setBit m k false) old
  let next := setField next 8 0#4
  let next := [msrIr, msrDr, msrRi].foldl (fun m k => setBit m k false) next
  setBit next msrLe (old.getLsbD msrIle) &&& msrMask cfg

/-- `fixed_vector`. -/
def fixedVector (ip : Bool) (offset : BitVec 13) : BitVec 32 :=
  (if ip then 0xfff00000 else 0) ||| offset.setWidth 32

/-- `exception_vector`. -/
def exceptionVector (ip : Bool) (offset : BitVec 13) : BitVec 32 :=
  if cfg.variant.has602 && !ip then i.ibr ++ 0#3 ++ offset else fixedVector ip offset

/-- The registers of an event taken. -/
def take (b : State) (srr0 srr1 msr target : BitVec 32) : State :=
  { b with srr0 := srr0, srr1 := srr1, msr := msr, resultSupported := true, resultTarget := target }

/-- An event at an instruction boundary; `b` holds its rejection. -/
def dispatch (b : State) : State :=
  let pc := i.eventPc
  let ip := s.msr.getLsbD msrIp
  let msr := exceptionMsr cfg s.msr
  let low := s.msr &&& 0x0000ffff
  let vector := exceptionVector cfg i ip
  match i.eventKind with
  | .sc => take b (pc + 4) (exceptionSrr1 s.msr 0) msr (vector 0x0c00)
  | .programIllegal => take b pc (exceptionSrr1 s.msr 0x00080000) msr (vector 0x0700)
  | .programPriv => take b pc (exceptionSrr1 s.msr 0x00040000) msr (vector 0x0700)
  | .programTrap => take b pc (exceptionSrr1 s.msr 0x00020000) msr (vector 0x0700)
  | .programFp =>
    if cfg.enableFpu then take b pc (exceptionSrr1 s.msr 0x00100000) msr (vector 0x0700) else b
  | .fpUnavailable => take b pc (exceptionSrr1 s.msr 0) msr (vector 0x0800)
  | .isi =>
    if i.eventIsiCause = .isiProtection ∨ i.eventIsiCause = .isiGuarded then
      take b pc (exceptionSrr1 s.msr
        (if i.eventIsiCause = .isiProtection then 0x08000000 else 0x10000000)) msr (vector 0x0400)
    else b
  | .decrementer =>
    if s.msr.getLsbD msrEe then take b pc (s.msr &&& srr1SaveMask) msr (vector 0x0900) else b
  | .external => if s.msr.getLsbD msrEe then take b pc low msr (vector 0x0500) else b
  | .alignment => take b pc low msr (vector 0x0600)
  | .dsi => take b pc low msr (vector 0x0300)
  | .tlbIMiss | .tlbDLoad | .tlbDStore =>
    if cfg.enableTlbMissExceptions then
      take b pc
        (missSrr1 (s.msr.extractLsb' 22 5 &&& srr1SaveMask.extractLsb' 22 5)
          (s.msr.extractLsb' 0 16) i.eventMissCr0 (cfg.variant.hasSrr1Key && i.eventMissKey)
          (i.eventKind = .tlbIMiss) i.eventMissWay (i.eventKind = .tlbDStore))
        (msr ||| 1#32 <<< msrTgpr)
        (vector (if i.eventKind = .tlbIMiss then 0x1000
          else if i.eventKind = .tlbDLoad then 0x1100 else 0x1200))
    else b
  | .machineCheck =>
    if cfg.enableMachineCheck && s.msr.getLsbD msrMe then
      take b pc (low ||| 0x00040000) (msr &&& ~~~(1#32 <<< msrMe)) (fixedVector ip 0x0200)
    else b
  | .machineCheckPin | .machineCheckApe | .machineCheckDpe =>
    if s.msr.getLsbD msrMe then
      take b pc
        (low ||| if i.eventKind = .machineCheckApe then 0x00010000
          else if i.eventKind = .machineCheckDpe then 0x00020000 else 0x00080000)
        (msr &&& ~~~(1#32 <<< msrMe)) (fixedVector ip 0x0200)
    else b
  | .softReset => take b pc low msr (fixedVector ip 0x0100)
  | .smi => if s.msr.getLsbD msrEe then take b pc low msr (vector 0x1400) else b
  | .trace | .iabr =>
    if cfg.enableDebugExceptions then
      take b pc low msr
        (if i.eventKind = .trace then vector 0x0d00 else fixedVector ip 0x1300)
    else b
  | .rfi =>
    if s.msr.getLsbD msrPr then take b pc (exceptionSrr1 s.msr 0x00040000) msr (vector 0x0700)
    else
      { b with
        msr := rfiNewMsr cfg s
        resultSupported := true
        resultTarget := s.srr0.extractLsb' 2 30 ++ 0#2 }
  | .programFpEnable =>
    if cfg.enableFpu then
      take b (pc + 4) (exceptionSrr1 i.stateLoadMsr (0x00100000 ||| 0x00010000))
        (exceptionMsr cfg i.stateLoadMsr)
        (exceptionVector cfg i (i.stateLoadMsr.getLsbD msrIp) 0x0700)
    else b
  | .rfiFpEnable =>
    if cfg.enableFpu then
      take b (s.srr0.extractLsb' 2 30 ++ 0#2)
        (exceptionSrr1 (rfiNewMsr cfg s) (0x00100000 ||| 0x00010000))
        (exceptionMsr cfg (rfiNewMsr cfg s))
        (exceptionVector cfg i ((rfiNewMsr cfg s).getLsbD msrIp) 0x0700)
    else b
  | .watchdog =>
    if cfg.variant.has602 && s.msr.getLsbD msrEe then take b pc low msr (vector 0x1500) else b
  | .emulationTrap => if cfg.variant.has602 then take b pc low msr (vector 0x1600) else b
  | .esa =>
    if cfg.variant.has602 then
      if s.msr.getLsbD msrSa || !i.eventEsaEnable then
        take b pc
          (exceptionSrr1 s.msr (if !s.msr.getLsbD msrSa then 0x00080000 else 0x00040000)) msr
          (vector 0x0700)
      else
        { b with
          esasrr := 0#28 ++ BitVec.ofBool (s.msr.getLsbD msrPr) ++
            BitVec.ofBool (s.msr.getLsbD msrAp) ++ BitVec.ofBool (s.msr.getLsbD msrSa) ++
            BitVec.ofBool (s.msr.getLsbD msrEe)
          msr := setBit (setBit (setBit (setBit s.msr msrPr false) msrAp false) msrSa true)
            msrEe false
          resultSupported := true
          resultTarget := pc + 4 }
    else b
  | .dsa =>
    if cfg.variant.has602 then
      if !s.msr.getLsbD msrSa then
        take b pc (exceptionSrr1 s.msr 0x00040000) msr (vector 0x0700)
      else
        { b with
          msr := setBit (setBit (setBit (setBit s.msr msrPr (s.esasrr.getLsbD 3)) msrAp
            (s.esasrr.getLsbD 2)) msrSa (s.esasrr.getLsbD 1)) msrEe (s.esasrr.getLsbD 0)
          resultSupported := true
          resultTarget := pc + 4 }
    else b
  | .unknown => b

/-- The clock edge. -/
def step : State :=
  if !i.rstN then
    { msr := cfg.resetMsr &&& msrMask cfg, srr0 := cfg.resetSrr0, srr1 := cfg.resetSrr1
      esasrr := 0, resultValid := false, resultSupported := false, resultTarget := 0 }
  else
    let b :=
      if s.resultValid && i.resultReady then { s with resultValid := false } else s
    let b :=
      if stateLoadFire s i then
        { b with
          msr := if i.stateLoadEnable.getLsbD 0 then i.stateLoadMsr &&& msrStoredMask cfg else b.msr
          srr0 := if i.stateLoadEnable.getLsbD 1 then i.stateLoadSrr0 else b.srr0
          srr1 := if i.stateLoadEnable.getLsbD 2 then i.stateLoadSrr1 else b.srr1
          esasrr :=
            if i.stateLoadEnable.getLsbD 3 && cfg.variant.has602 then
              i.stateLoadEsasrr &&& 0x0000000f
            else b.esasrr }
      else b
    if eventFire s i then
      let b := { b with resultValid := true, resultSupported := false, resultTarget := 0 }
      if i.eventPc.extractLsb' 0 2 = 0 then dispatch cfg s i b else b
    else b

end Signals

/-! ## What an event saves -/

/-- The MSR that an event saves: the one that it gives, for those that also give one. -/
def savedMsr (cfg : Cfg) (s : State) (i : Input) : BitVec 32 :=
  match i.eventKind with
  | .programFpEnable => i.stateLoadMsr
  | .rfiFpEnable => rfiNewMsr cfg s
  | _ => s.msr

/-- The bits of it that go to SRR1. -/
def savedBits : Event → BitVec 32
  | .external | .alignment | .dsi | .machineCheck | .machineCheckPin | .machineCheckApe
  | .machineCheckDpe | .softReset | .smi | .trace | .iabr | .watchdog | .emulationTrap => 0x0000ffff
  | .tlbIMiss | .tlbDLoad | .tlbDStore => 0x0700ffff
  | _ => 0x8700ffff

/-- The bits that `rfi` takes from SRR1. -/
def rfiMask (cfg : Cfg) : BitVec 32 := msrSrr1Mask &&& msrStoredMask cfg

/-- An `rfi` that returns. -/
def returns (s : State) (i : Input) : Bool := i.eventKind = .rfi && !s.msr.getLsbD msrPr

/-- An `esa` or a `dsa` that is accepted. -/
def switches (s : State) (i : Input) : Bool :=
  (i.eventKind = .esa && !s.msr.getLsbD msrSa && i.eventEsaEnable) ||
    (i.eventKind = .dsa && s.msr.getLsbD msrSa)

/-- The registers after an entry that saved `bits` of `saved`. -/
structure Saves (cfg : Cfg) (saved bits : BitVec 32) (n : State) : Prop where
  srr1 : ∀ j, (rfiMask cfg).getLsbD j = true →
    n.srr1.getLsbD j = (saved.getLsbD j && bits.getLsbD j)
  cleared : ∀ j, (rfiMask cfg).getLsbD j = true → bits.getLsbD j = false →
    n.msr.getLsbD j = false
  stored : ∀ j, (msrStoredMask cfg).getLsbD j = false → n.msr.getLsbD j = false
  supervisor : n.msr.getLsbD msrPr = false
  supported : n.resultSupported = true

section Entry

variable {cfg : Cfg}

theorem mask_cases (cfg : Cfg) : msrStoredMask cfg = 0x0007ff73 ∨ msrStoredMask cfg = 0x0007df73 ∨
    msrStoredMask cfg = 0x00c7ff73 ∨ msrStoredMask cfg = 0x00c7df73 := by
  unfold msrStoredMask msrMask msrImplemented
  cases cfg.variant.has602 <;> split_ifs <;> decide

/-- Where `rfi` reads SRR1. -/
theorem rfiMask_place {j : ℕ} (h : (rfiMask cfg).getLsbD j = true) : j < 16 ∨ j = 22 ∨ j = 23 := by
  have hj : j < 32 := by
    by_contra hge
    rw [BitVec.getLsbD_of_ge _ _ (Nat.not_lt.1 hge)] at h
    cases h
  have h0 : ∀ j < 32, (msrSrr1Mask &&& 0x0007ff73).getLsbD j = true → j < 16 := by decide
  have h1 : ∀ j < 32, (msrSrr1Mask &&& 0x0007df73).getLsbD j = true → j < 16 := by decide
  have h2 : ∀ j < 32, (msrSrr1Mask &&& 0x00c7ff73).getLsbD j = true → j < 16 ∨ j = 22 ∨ j = 23 := by
    decide
  have h3 : ∀ j < 32, (msrSrr1Mask &&& 0x00c7df73).getLsbD j = true → j < 16 ∨ j = 22 ∨ j = 23 := by
    decide
  rw [rfiMask] at h
  rcases mask_cases cfg with hm | hm | hm | hm <;> rw [hm] at h
  · exact Or.inl (h0 j hj h)
  · exact Or.inl (h1 j hj h)
  · exact h2 j hj h
  · exact h3 j hj h

/-- The bits that an entry clears. -/
def clearedBits : List ℕ := [23, 22, 18, 17, 15, 14, 13, 11, 10, 9, 8, 5, 4, 1]

theorem getLsbD_exceptionMsr (old : BitVec 32) {j : ℕ} (hj : j < 32) :
    (exceptionMsr cfg old).getLsbD j =
      ((if j = 0 then old.getLsbD 16 else if j ∈ clearedBits then false else old.getLsbD j) &&
        (msrMask cfg).getLsbD j) := by
  rw [exceptionMsr, BitVec.getLsbD_and]
  congr 1
  simp only [List.foldl_cons, List.foldl_nil, getLsbD_setBit _ _ _ hj, getLsbD_setField _ _ _ hj,
    BitVec.getLsbD_zero]
  by_cases hle : j = 0
  · subst hle
    rfl
  by_cases hc : j ∈ clearedBits
  · rw [if_pos hc]
    simp only [clearedBits, List.mem_cons, List.not_mem_nil, or_false] at hc
    rcases hc with rfl | rfl | rfl | rfl | rfl | rfl | rfl | rfl | rfl | rfl | rfl | rfl | rfl | rfl
      <;> rfl
  · rw [if_neg hc]
    simp only [clearedBits, List.mem_cons, List.not_mem_nil, or_false, not_or] at hc
    have hfield : ¬ (8 ≤ j ∧ j < 8 + 4) := by omega
    simp only [msrAp, msrSa, msrPow, msrTgpr, msrEe, msrPr, msrFp, msrIr, msrDr, msrRi, msrLe,
      hle, hc, hfield, if_false]

/-- A bit that the register may hold, but FP. -/
theorem stored_of_mask {j : ℕ} (h : (msrMask cfg).getLsbD j = true) (h13 : j ≠ 13) :
    (msrStoredMask cfg).getLsbD j = true := by
  unfold msrStoredMask
  split_ifs
  · rw [BitVec.getLsbD_and, h, BitVec.getLsbD_not, BitVec.getLsbD_shiftLeft]
    have hj : j < 32 := by
      by_contra hge
      rw [BitVec.getLsbD_of_ge _ _ (Nat.not_lt.1 hge)] at h
      cases h
    have hone : (1#32).getLsbD (j - msrFp) = false ∨ j < msrFp := by
      by_cases hlt : j < msrFp
      · exact Or.inr hlt
      · have hne : j - msrFp ≠ 0 := by
          have : msrFp = 13 := rfl
          omega
        exact Or.inl (by rw [BitVec.getLsbD_one]; simp [hne])
    rcases hone with hone | hlt
    · simp [hone, hj]
    · simp [hlt, hj]
  · exact h

/-- The MSR of an entry: the cleared bits are clear, but TGPR, and the rest is stored. -/
structure EntryMsr (cfg : Cfg) (m : BitVec 32) : Prop where
  access : m.getLsbD 22 = false ∧ m.getLsbD 23 = false
  supervisor : m.getLsbD msrPr = false
  stored : ∀ j, (msrStoredMask cfg).getLsbD j = false → m.getLsbD j = false

theorem entryMsr_of_le (old : BitVec 32) {m : BitVec 32} (hm : ∀ j, j ≠ 17 →
    m.getLsbD j = true → (exceptionMsr cfg old).getLsbD j = true) : EntryMsr cfg m := by
  have hclear : ∀ j ∈ clearedBits, j ≠ 17 → m.getLsbD j = false := by
    intro j hj h17
    have hplace : ∀ k ∈ clearedBits, k < 32 ∧ k ≠ 0 := by decide
    by_contra hset
    have hentry := hm j h17 (by simpa using hset)
    rw [getLsbD_exceptionMsr old (hplace j hj).1, if_neg (hplace j hj).2, if_pos hj,
      Bool.false_and] at hentry
    exact Bool.false_ne_true hentry
  refine ⟨⟨hclear 22 (by decide) (by decide), hclear 23 (by decide) (by decide)⟩,
    hclear 14 (by decide) (by decide), fun j hj => ?_⟩
  by_cases h17 : j = 17
  · have htgpr : (msrStoredMask cfg).getLsbD 17 = true :=
      stored_of_mask (by unfold msrMask msrImplemented; cases cfg.variant.has602 <;> rfl) (by decide)
    rw [h17, htgpr] at hj
    cases hj
  by_cases h13 : j = 13
  · rw [h13]
    exact hclear 13 (by decide) (by decide)
  by_contra hset
  have hentry := hm j h17 (by simpa using hset)
  rw [exceptionMsr, BitVec.getLsbD_and, Bool.and_eq_true] at hentry
  rw [stored_of_mask hentry.2 h13] at hj
  cases hj

theorem entryMsr_exceptionMsr (old : BitVec 32) : EntryMsr cfg (exceptionMsr cfg old) :=
  entryMsr_of_le old fun _ _ h => h

theorem entryMsr_miss (old : BitVec 32) :
    EntryMsr cfg (exceptionMsr cfg old ||| 1#32 <<< msrTgpr) := by
  refine entryMsr_of_le old fun j h17 h => ?_
  rw [BitVec.getLsbD_or, BitVec.getLsbD_shiftLeft, Bool.or_eq_true] at h
  rcases h with h | h
  · exact h
  · have hne : ¬ (j < 32 ∧ msrTgpr ≤ j ∧ j - msrTgpr = 0) := by
      have : msrTgpr = 17 := rfl
      omega
    simp [BitVec.getLsbD_one] at h
    exact absurd ⟨h.1.1, h.1.2, h.2⟩ hne

theorem entryMsr_check (old : BitVec 32) :
    EntryMsr cfg (exceptionMsr cfg old &&& ~~~(1#32 <<< msrMe)) := by
  refine entryMsr_of_le old fun j _ h => ?_
  rw [BitVec.getLsbD_and, Bool.and_eq_true] at h
  exact h.1

/-- SRR1 as the saved bits and a cause apart from them. -/
theorem srr1_bits {x k c : BitVec 32} (hc : c &&& 0x00c0ffff#32 = 0#32) {j : ℕ}
    (hj : j < 16 ∨ j = 22 ∨ j = 23) :
    ((x &&& k) ||| c).getLsbD j = (x.getLsbD j && k.getLsbD j) := by
  have hmask : ∀ j < 32, j < 16 ∨ j = 22 ∨ j = 23 → (0x00c0ffff#32).getLsbD j = true := by decide
  have hbit := congrArg (BitVec.getLsbD · j) hc
  simp only [BitVec.getLsbD_and, BitVec.getLsbD_zero, hmask j (by omega) hj, Bool.and_true] at hbit
  rw [BitVec.getLsbD_or, BitVec.getLsbD_and, hbit, Bool.or_false]

theorem saves_take {b : State} {srr0 srr1 msr target saved bits : BitVec 32}
    (hmsr : EntryMsr cfg msr) (hlow : ∀ j < 16, bits.getLsbD j = true)
    (hsrr1 : ∀ j, j < 16 ∨ j = 22 ∨ j = 23 →
      srr1.getLsbD j = (saved.getLsbD j && bits.getLsbD j)) :
    Saves cfg saved bits (take b srr0 srr1 msr target) := by
  refine ⟨fun j hj => hsrr1 j (rfiMask_place hj), fun j hj hbit => ?_, hmsr.stored,
    hmsr.supervisor, rfl⟩
  rcases rfiMask_place hj with h | rfl | rfl
  · rw [hlow j h] at hbit
    cases hbit
  · exact hmsr.access.1
  · exact hmsr.access.2

/-- An entry that saves the SRR1 subset of the MSR. -/
theorem saves_exception {b : State} {srr0 old c target : BitVec 32} (hc : c &&& 0x00c0ffff = 0) :
    Saves cfg old 0x8700ffff
      (take b srr0 (exceptionSrr1 old c) (exceptionMsr cfg old) target) := by
  have hmask : srr1SaveMask = 0x8700ffff := by decide
  refine saves_take (entryMsr_exceptionMsr old) (by decide) fun j hj => ?_
  rw [exceptionSrr1, hmask]
  exact srr1_bits hc hj

/-- An entry that saves the low half. -/
theorem saves_low {b : State} {srr0 old c m target : BitVec 32} (hm : EntryMsr cfg m)
    (hc : c &&& 0x00c0ffff = 0) :
    Saves cfg old 0x0000ffff (take b srr0 ((old &&& 0x0000ffff) ||| c) m target) :=
  saves_take hm (by decide) fun _ hj => srr1_bits hc hj

/-- The same, with no cause. -/
theorem saves_plain {b : State} {srr0 old target : BitVec 32} :
    Saves cfg old 0x0000ffff
      (take b srr0 (old &&& 0x0000ffff) (exceptionMsr cfg old) target) := by
  have hsave : Saves cfg old 0x0000ffff
      (take b srr0 ((old &&& 0x0000ffff) ||| 0#32) (exceptionMsr cfg old) target) :=
    saves_low (entryMsr_exceptionMsr old) (by decide)
  rwa [BitVec.or_zero] at hsave

/-- A table miss, whose SRR1 carries CR0 and the kind of miss. -/
theorem saves_miss {b : State} {srr0 old target : BitVec 32} (cr0 : BitVec 4)
    (key instruction way storeAccess : Bool) :
    Saves cfg old 0x0700ffff (take b srr0
      (missSrr1 (old.extractLsb' 22 5 &&& srr1SaveMask.extractLsb' 22 5) (old.extractLsb' 0 16) cr0
        key instruction way storeAccess)
      (exceptionMsr cfg old ||| 1#32 <<< msrTgpr) target) := by
  have hhigh : srr1SaveMask.extractLsb' 22 5 = 0b11100#5 := by decide
  refine saves_take (entryMsr_miss old) (by decide) fun j hj => ?_
  rw [missSrr1, hhigh, BitVec.getLsbD_append]
  rcases hj with h | rfl | rfl
  · have hall : ∀ k < 16, (0x0700ffff#32).getLsbD k = true := by decide
    have hset : BitVec.getLsbD 0x0700ffff j = true := hall j h
    rw [if_pos (by simpa using h), hset, BitVec.getLsbD_extractLsb', decide_eq_true h,
      Bool.true_and, Bool.and_true, Nat.zero_add]
  · have hnone : (0x0700ffff : BitVec 32).getLsbD 22 = false := rfl
    rw [hnone, Bool.and_false]
    simp only [BitVec.getLsbD_append, Nat.reduceLT, Nat.reduceSub, if_true, if_false,
      BitVec.getLsbD_and]
    exact Bool.and_false _
  · have hnone : (0x0700ffff : BitVec 32).getLsbD 23 = false := rfl
    rw [hnone, Bool.and_false]
    simp only [BitVec.getLsbD_append, Nat.reduceLT, Nat.reduceSub, if_true, if_false,
      BitVec.getLsbD_and]
    exact Bool.and_false _

/-- The decrementer saves the subset with no cause. -/
theorem saves_decrementer {b : State} {srr0 old target : BitVec 32} :
    Saves cfg old 0x8700ffff
      (take b srr0 (old &&& srr1SaveMask) (exceptionMsr cfg old) target) := by
  have hsave : Saves cfg old 0x8700ffff
      (take b srr0 (exceptionSrr1 old 0#32) (exceptionMsr cfg old) target) :=
    saves_exception (by decide)
  rwa [exceptionSrr1, BitVec.or_zero] at hsave

/-- What an event does: nothing, a return, a switch of access, or an entry. -/
inductive Outcome (cfg : Cfg) (s : State) (i : Input) (b : State) (saved : BitVec 32) :
    State → Prop
  | rejected : Outcome cfg s i b saved b
  | returned (h : returns s i = true) : Outcome cfg s i b saved
      { b with msr := rfiNewMsr cfg s, resultSupported := true
               resultTarget := s.srr0.extractLsb' 2 30 ++ 0#2 }
  | switched (h : switches s i = true) {n : State} (hn : n.resultSupported = true) :
      Outcome cfg s i b saved n
  | entered (hr : returns s i = false) (hs : switches s i = false) {n : State}
      (hn : Saves cfg saved (savedBits i.eventKind) n) : Outcome cfg s i b saved n

/-- An event that may be masked or disabled. -/
theorem Outcome.ite {s : State} {i : Input} {b n : State} {saved : BitVec 32} {c : Prop}
    [Decidable c] (h : Outcome cfg s i b saved n) : Outcome cfg s i b saved (if c then n else b) := by
  split_ifs
  · exact h
  · exact .rejected

/-- **What an event does.** -/
theorem dispatch_outcome (s : State) (i : Input) (b : State) :
    Outcome cfg s i b (savedMsr cfg s i) (dispatch cfg s i b) := by
  have hplain : i.eventKind ≠ .rfi → i.eventKind ≠ .esa → i.eventKind ≠ .dsa →
      returns s i = false ∧ switches s i = false := by
    intro h1 h2 h3
    simp [returns, switches, h1, h2, h3]
  have henter : ∀ {saved : BitVec 32} {n : State}, Saves cfg saved (savedBits i.eventKind) n →
      returns s i = false ∧ switches s i = false → Outcome cfg s i b saved n :=
    fun hn h => .entered h.1 h.2 hn
  unfold dispatch savedMsr
  cases hk : i.eventKind <;> simp only [hk] at hplain henter ⊢
  case sc | programIllegal | programPriv | programTrap | fpUnavailable =>
    exact henter (saves_exception (by decide)) (hplain (by decide) (by decide) (by decide))
  case programFp | programFpEnable | rfiFpEnable =>
    exact .ite (henter (saves_exception (by decide)) (hplain (by decide) (by decide) (by decide)))
  case isi =>
    refine .ite (henter (saves_exception ?_) (hplain (by decide) (by decide) (by decide)))
    split_ifs <;> decide
  case decrementer =>
    exact .ite (henter saves_decrementer (hplain (by decide) (by decide) (by decide)))
  case alignment | dsi | softReset =>
    exact henter saves_plain (hplain (by decide) (by decide) (by decide))
  case external | smi | trace | iabr | watchdog | emulationTrap =>
    exact .ite (henter saves_plain (hplain (by decide) (by decide) (by decide)))
  case tlbIMiss | tlbDLoad | tlbDStore =>
    exact .ite (henter (saves_miss _ _ _ _ _) (hplain (by decide) (by decide) (by decide)))
  case machineCheck | machineCheckPin | machineCheckApe | machineCheckDpe =>
    exact .ite (henter (saves_low (entryMsr_check _) (by decide))
      (hplain (by decide) (by decide) (by decide)))
  case unknown => exact .rejected
  case rfi =>
    split_ifs with hpr
    · exact henter (saves_exception (by decide)) ⟨by simp [returns, hpr], by simp [switches, hk]⟩
    · exact .returned (by simp [returns, hk, hpr])
  case esa =>
    refine .ite ?_
    split_ifs with hbad hsa
    · refine henter (saves_exception (by decide)) ⟨by simp [returns, hk], ?_⟩
      simp only [Bool.or_eq_true, Bool.not_eq_true'] at hbad
      rcases hbad with h | h <;> simp [switches, hk, h]
    · refine henter (saves_exception (by decide)) ⟨by simp [returns, hk], ?_⟩
      simp only [Bool.or_eq_true, Bool.not_eq_true'] at hbad
      rcases hbad with h | h <;> simp [switches, hk, h]
    · refine .switched ?_ rfl
      simp only [Bool.or_eq_true, Bool.not_eq_true', not_or, Bool.not_eq_true, Bool.not_eq_false]
        at hbad
      simp [switches, hk, hbad]
  case dsa =>
    refine .ite ?_
    split_ifs with hsa
    · refine henter (saves_exception (by decide)) ⟨by simp [returns, hk], ?_⟩
      simp only [Bool.not_eq_true'] at hsa
      simp [switches, hk, hsa]
    · refine .switched ?_ rfl
      simp only [Bool.not_eq_true', Bool.not_eq_false] at hsa
      simp [switches, hk, hsa]

/-! ## Entry and return -/

/-- An event accepted and not yet decided. -/
def accepted (s : State) : State :=
  { s with resultValid := true, resultSupported := false, resultTarget := 0 }

/-- The edge of an event that fires. -/
theorem step_fire {s : State} {i : Input} (h : eventFire s i = true) : step cfg s i =
    if i.eventPc.extractLsb' 0 2 = 0 then dispatch cfg s i (accepted s) else accepted s := by
  simp only [eventFire, Bool.and_eq_true] at h
  have hload : stateLoadFire s i = false := by simp [stateLoadFire, h.1.1]
  have hfire : eventFire s i = true := by simp [eventFire, h]
  have hb : ({ (if s.resultValid && i.resultReady then { s with resultValid := false } else s) with
      resultValid := true, resultSupported := false, resultTarget := 0 } : State) = accepted s := by
    split_ifs <;> rfl
  rw [step, if_neg (by simp [h.1.2])]
  dsimp only
  rw [hload, hfire, if_neg Bool.false_ne_true, if_pos rfl, hb]

theorem dispatch_resultValid (s : State) (i : Input) (b : State) :
    (dispatch cfg s i b).resultValid = b.resultValid := by
  unfold dispatch
  cases i.eventKind <;> simp only [take] <;> repeat' split
  all_goals rfl

/-- The edge of the registers when nothing fires: a held result goes when it is taken. -/
theorem step_quiet {s : State} {i : Input} (hrst : i.rstN = true) (hfire : eventFire s i = false)
    (hload : stateLoadFire s i = false) : step cfg s i =
      { s with resultValid := s.resultValid && !i.resultReady } := by
  simp only [step, hrst, hfire, hload, Bool.not_true, Bool.false_eq_true, if_false]
  cases s
  cases hv : i.resultReady <;> split_ifs <;> simp_all

/-- The result slot: an event fills it, and a redirect that is taken empties it. -/
theorem step_resultValid {s : State} {i : Input} (hrst : i.rstN = true) :
    (step cfg s i).resultValid = (eventFire s i || (s.resultValid && !i.resultReady)) := by
  cases hfire : eventFire s i with
  | true =>
    rw [step_fire hfire]
    split_ifs
    · rw [dispatch_resultValid]
      rfl
    · rfl
  | false =>
    simp only [step, hrst, hfire, Bool.not_true, Bool.false_eq_true, if_false, Bool.false_or]
    cases hready : i.resultReady <;> cases hvalid : s.resultValid <;>
      simp only [Bool.and_true, Bool.and_false, Bool.false_eq_true, if_true, if_false] <;>
      split_ifs <;> simp_all

theorem step_outcome {s : State} {i : Input} (h : eventFire s i = true) :
    Outcome cfg s i (accepted s) (savedMsr cfg s i) (step cfg s i) := by
  rw [step_fire h]
  exact .ite (dispatch_outcome s i _)

/-- The bits of an entry's MSR that the `rfi` after it restores. -/
def restored (cfg : Cfg) (k : Event) : BitVec 32 := savedBits k &&& rfiMask cfg

theorem getLsbD_rfiNewMsr (t : State) {j : ℕ} (hj : j < 32) : (rfiNewMsr cfg t).getLsbD j =
    (j ≠ msrTgpr && (msrStoredMask cfg).getLsbD j &&
      if (rfiMask cfg).getLsbD j then t.srr1.getLsbD j else t.msr.getLsbD j) := by
  have hsub : (msrStoredMask cfg).getLsbD j = true → (msrMask cfg).getLsbD j = true := by
    unfold msrStoredMask
    split_ifs
    · rw [BitVec.getLsbD_and, Bool.and_eq_true]
      exact And.left
    · exact id
  rw [rfiNewMsr, rfiMsr, rfiMask, BitVec.getLsbD_and, getLsbD_setBit _ _ _ hj, BitVec.getLsbD_and,
    BitVec.getLsbD_or, BitVec.getLsbD_and, BitVec.getLsbD_and, BitVec.getLsbD_and,
    BitVec.getLsbD_not, decide_eq_true hj, Bool.true_and]
  by_cases htgpr : j = msrTgpr
  · simp [htgpr]
  · rw [if_neg htgpr]
    cases hstored : (msrStoredMask cfg).getLsbD j with
    | false => simp
    | true =>
      rw [hsub hstored]
      cases msrSrr1Mask.getLsbD j <;> simp [htgpr]

/-- **`rfi` after an entry.** -/
theorem rfiNewMsr_of_saves {saved bits : BitVec 32} {n t : State} (hn : Saves cfg saved bits n)
    (hmsr : t.msr = n.msr) (hsrr1 : t.srr1 = n.srr1) : rfiNewMsr cfg t =
      (saved &&& (bits &&& rfiMask cfg)) |||
        (n.msr &&& ~~~(bits &&& rfiMask cfg) &&& ~~~(1#32 <<< msrTgpr)) := by
  refine BitVec.eq_of_getLsbD_eq fun j hj => ?_
  have htgpr : (1#32 <<< msrTgpr).getLsbD j = decide (j = msrTgpr) := by
    have : ∀ j < 32, (1#32 <<< msrTgpr).getLsbD j = decide (j = msrTgpr) := by decide
    exact this j hj
  have hnone : (rfiMask cfg).getLsbD j = true → (msrStoredMask cfg).getLsbD j = true := by
    rw [rfiMask, BitVec.getLsbD_and, Bool.and_eq_true]
    exact And.right
  have hplace : (rfiMask cfg).getLsbD j = true → j ≠ msrTgpr := by
    intro h heq
    rcases rfiMask_place h with h | h | h <;> (have : msrTgpr = 17 := rfl; omega)
  rw [getLsbD_rfiNewMsr t hj, hmsr, hsrr1]
  simp only [BitVec.getLsbD_or, BitVec.getLsbD_and, BitVec.getLsbD_not, hj, decide_true,
    Bool.true_and, htgpr]
  cases hmask : (rfiMask cfg).getLsbD j with
  | true =>
    rw [hn.srr1 j hmask, hnone hmask]
    cases hbit : bits.getLsbD j with
    | true => simp [hplace hmask]
    | false => simp [hn.cleared j hmask hbit]
  | false =>
    cases hstored : (msrStoredMask cfg).getLsbD j with
    | true => by_cases h : j = msrTgpr <;> simp [h]
    | false => simp [hn.stored j hstored]

/-- The edge of an `rfi` in supervisor state. -/
theorem step_rfi {t : State} {j : Input} (hfire : eventFire t j = true) (hk : j.eventKind = .rfi)
    (hpc : j.eventPc.extractLsb' 0 2 = 0) (hpr : t.msr.getLsbD msrPr = false) :
    step cfg t j = { accepted t with
      msr := rfiNewMsr cfg t, resultSupported := true
      resultTarget := t.srr0.extractLsb' 2 30 ++ 0#2 } := by
  rw [step_fire hfire, if_pos hpc, dispatch, hk]
  simp only [hpr, Bool.false_eq_true, if_false]

/-- The edge of an `esa` that is accepted. -/
theorem step_esa {s : State} {i : Input} (hfire : eventFire s i = true) (hk : i.eventKind = .esa)
    (hs : switches s i = true) (hok : (step cfg s i).resultSupported = true) :
    cfg.variant.has602 = true ∧ (step cfg s i).esasrr =
        0#28 ++ BitVec.ofBool (s.msr.getLsbD msrPr) ++ BitVec.ofBool (s.msr.getLsbD msrAp) ++
          BitVec.ofBool (s.msr.getLsbD msrSa) ++ BitVec.ofBool (s.msr.getLsbD msrEe) ∧
      (step cfg s i).msr =
        setBit (setBit (setBit (setBit s.msr msrPr false) msrAp false) msrSa true) msrEe false := by
  have hopen : s.msr.getLsbD msrSa = false ∧ i.eventEsaEnable = true := by
    simpa [switches, hk] using hs
  rw [step_fire hfire] at hok ⊢
  by_cases hpc : i.eventPc.extractLsb' 0 2 = 0
  · rw [if_pos hpc, dispatch, hk] at hok ⊢
    dsimp only at hok ⊢
    cases h602 : cfg.variant.has602 with
    | false =>
      rw [h602, if_neg Bool.false_ne_true] at hok
      cases hok
    | true =>
      rw [if_pos rfl, hopen.1, hopen.2, if_neg (by decide)]
      exact ⟨rfl, rfl, rfl⟩
  · rw [if_neg hpc] at hok
    cases hok

/-- The edge of a `dsa` that is accepted. -/
theorem step_dsa {t : State} {j : Input} (h602 : cfg.variant.has602 = true)
    (hfire : eventFire t j = true) (hk : j.eventKind = .dsa)
    (hpc : j.eventPc.extractLsb' 0 2 = 0) (hsa : t.msr.getLsbD msrSa = true) :
    step cfg t j = { accepted t with
      msr := setBit (setBit (setBit (setBit t.msr msrPr (t.esasrr.getLsbD 3)) msrAp
        (t.esasrr.getLsbD 2)) msrSa (t.esasrr.getLsbD 1)) msrEe (t.esasrr.getLsbD 0)
      resultSupported := true, resultTarget := j.eventPc + 4 } := by
  rw [step_fire hfire, if_pos hpc, dispatch, hk]
  simp only [h602, hsa, if_true, Bool.not_true, Bool.false_eq_true, if_false]

/-- What an event does to the saved state, and what the return after it undoes. -/
structure Inverse (cfg : Cfg) (s : State) (i : Input) : Prop where
  /-- A rejected event changes nothing. -/
  rejected : eventFire s i = true → (step cfg s i).resultSupported = false →
    (step cfg s i).msr = s.msr ∧ (step cfg s i).srr0 = s.srr0 ∧ (step cfg s i).srr1 = s.srr1 ∧
      (step cfg s i).esasrr = s.esasrr
  /-- An entry saves its bits, and `rfi` from the unmodified state restores those it masks. -/
  returned : eventFire s i = true → (step cfg s i).resultSupported = true →
    returns s i = false → switches s i = false →
    (step cfg s i).srr1 &&& restored cfg i.eventKind =
        savedMsr cfg s i &&& restored cfg i.eventKind ∧
    ∀ t j, t.msr = (step cfg s i).msr → t.srr0 = (step cfg s i).srr0 →
      t.srr1 = (step cfg s i).srr1 → eventFire t j = true → j.eventKind = .rfi →
      j.eventPc.extractLsb' 0 2 = 0 →
        (step cfg t j).resultSupported = true ∧
        (step cfg t j).resultTarget = (step cfg s i).srr0.extractLsb' 2 30 ++ 0#2 ∧
        (step cfg t j).msr = (savedMsr cfg s i &&& restored cfg i.eventKind) |||
          ((step cfg s i).msr &&& ~~~restored cfg i.eventKind &&& ~~~(1#32 <<< msrTgpr))
  /-- A `dsa` after an accepted `esa` restores what it saved, the whole of the MSR. -/
  switched : eventFire s i = true → (step cfg s i).resultSupported = true → i.eventKind = .esa →
    switches s i = true → ∀ t j, t.msr = (step cfg s i).msr → t.esasrr = (step cfg s i).esasrr →
      eventFire t j = true → j.eventKind = .dsa → j.eventPc.extractLsb' 0 2 = 0 →
        (step cfg t j).resultSupported = true ∧ (step cfg t j).msr = s.msr

end Entry

end Exceptions
end SloPPC603
