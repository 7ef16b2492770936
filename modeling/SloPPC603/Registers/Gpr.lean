import SloPPC603.Clocked.LastWrite
import SloPPC603.Clocked.Machine

/-!
# The general-purpose registers

The registers and clock edge of `ppc_regfile_gpr.sv`: six read ports, two write ports
with a bank each, a live-value table that says which bank holds a register, and the
four registers that MSR[TGPR] puts in place of r0 to r3.

* `step` — the clock edge.
* `Reg`, `writes` — the architectural registers and what a cycle writes to them.
* `FileInv`, `fileInv_step` — the banks and the table against the writes so far.
* `reads_last_write` — two banks and a table are one register file.
-/

namespace SloPPC603
namespace Gpr

open Clocked

/-! ## The register file -/

/-- The parameters. -/
structure Config where
  enableTgpr : Bool
  dualWrite : Bool

/-- The inputs of one cycle; the read ports are rA, rB and rS of each slot. -/
structure Input where
  rstN : Bool := true
  tgpr : Bool := false
  readReg : Fin 6 → BitVec 5 := fun _ => 0
  write : Bool := false
  writeReg : BitVec 5 := 0
  writeValue : BitVec 32 := 0
  write1 : Bool := false
  write1Reg : BitVec 5 := 0
  write1Value : BitVec 32 := 0

/-- The registers: a copy of each bank for each read port, the live-value table and
the TGPR set. -/
structure State where
  clearing : Bool
  clearIndex : BitVec 5
  bank0 : Fin 6 → BitVec 5 → BitVec 32
  bank1 : Fin 6 → BitVec 5 → BitVec 32
  lvt : BitVec 5 → Bool
  tgpr : BitVec 2 → BitVec 32

section Signals

variable (cfg : Config) (s : State) (i : Input)

/-- The TGPR set takes the place of r0 to r3. -/
def shadowed (reg : BitVec 5) : Bool := cfg.enableTgpr && i.tgpr && reg.extractLsb' 2 3 = 0

/-- `ready_o`. -/
def ready : Bool := !s.clearing

/-- `array_write[0]`. -/
def arrayWrite0 : Bool := s.clearing || (i.write && !shadowed cfg i i.writeReg)

/-- `array_reg[0]`. -/
def arrayReg0 : BitVec 5 := if s.clearing then s.clearIndex else i.writeReg

/-- `array_value[0]`. -/
def arrayValue0 : BitVec 32 := if s.clearing then 0 else i.writeValue

/-- `array_write[1]`. -/
def arrayWrite1 : Bool :=
  cfg.dualWrite && !s.clearing && i.write1 && !shadowed cfg i i.write1Reg

/-- `array_read`. -/
def arrayRead (port : Fin 6) (reg : BitVec 5) : BitVec 32 :=
  if cfg.dualWrite && s.lvt reg then s.bank1 port reg else s.bank0 port reg

/-- `read_value`. -/
def readValue (port : Fin 6) : BitVec 32 :=
  if shadowed cfg i (i.readReg port) then s.tgpr ((i.readReg port).extractLsb' 0 2)
  else arrayRead cfg s port (i.readReg port)

/-- The next live-value table; port 1 writes last. -/
def nextLvt (reg : BitVec 5) : Bool :=
  if arrayWrite1 cfg s i && reg = i.write1Reg then true
  else if arrayWrite0 cfg s i && reg = arrayReg0 s i then false
  else s.lvt reg

/-- The next TGPR set; port 1 writes last. -/
def nextTgpr (reg : BitVec 2) : BitVec 32 :=
  if cfg.dualWrite && i.write1 && shadowed cfg i i.write1Reg &&
      reg = i.write1Reg.extractLsb' 0 2 then i.write1Value
  else if i.write && shadowed cfg i i.writeReg && reg = i.writeReg.extractLsb' 0 2 then
    i.writeValue
  else s.tgpr reg

/-- The clock edge; the banks have no reset. -/
def step : State where
  clearing := if !i.rstN then true else s.clearing && s.clearIndex ≠ 31
  clearIndex := if !i.rstN then 0 else if s.clearing then s.clearIndex + 1 else s.clearIndex
  bank0 := fun port reg =>
    if arrayWrite0 cfg s i && reg = arrayReg0 s i then arrayValue0 s i else s.bank0 port reg
  bank1 := fun port reg =>
    if arrayWrite1 cfg s i && reg = i.write1Reg then i.write1Value else s.bank1 port reg
  lvt := if !i.rstN then fun _ => false else nextLvt cfg s i
  tgpr := if !i.rstN then fun _ => 0 else nextTgpr cfg s i

end Signals

/-- The register file out of a reset edge, its banks holding anything. -/
def machine (cfg : Config) : Machine State Input where
  Initial s :=
    s.clearing = true ∧ s.clearIndex = 0 ∧ s.lvt = (fun _ => false) ∧ s.tgpr = fun _ => 0
  step := step cfg

/-! ## What software writes -/

/-- An architectural register: one of r0 to r31, or one of the TGPR set. -/
inductive Reg where
  | gpr (reg : BitVec 5)
  | tgpr (reg : BitVec 2)
  deriving DecidableEq

/-- The register a five-bit number names under MSR[TGPR]. -/
def named (cfg : Config) (i : Input) (reg : BitVec 5) : Reg :=
  if shadowed cfg i reg then .tgpr (reg.extractLsb' 0 2) else .gpr reg

/-- A register write. -/
structure Write where
  reg : Reg
  value : BitVec 32

/-- The writes of one cycle, port 1's last. -/
def writes (cfg : Config) (i : Input) : List Write :=
  (if i.write then [⟨named cfg i i.writeReg, i.writeValue⟩] else []) ++
    if i.write1 then [⟨named cfg i i.write1Reg, i.write1Value⟩] else []

/-- The writes since the last reset. -/
def journal (cfg : Config) (l : List Write) (_ : State) (i : Input) : List Write :=
  if i.rstN then l ++ writes cfg i else []

/-- What the last write to a register left there; the clearing leaves zero. -/
def held (l : List Write) (reg : Reg) : BitVec 32 :=
  ((lastAt Write.reg reg l).map Write.value).getD 0

/-- What the assertions of the source ask: no write until the file is ready, and none
on port 1 when it has no bank. -/
structure Legal (cfg : Config) (s : State) (i : Input) : Prop where
  idle : i.rstN = true → s.clearing = true → i.write = false ∧ i.write1 = false
  single : i.rstN = true → cfg.dualWrite = false → i.write1 = false

/-! ## The banks hold the last write -/

/-- The banks and the table against the writes so far. -/
structure FileInv (cfg : Config) (s : State) (l : List Write) : Prop where
  clearing : s.clearing = true → l = [] ∧ s.lvt = fun _ => false
  gpr : ∀ port reg, (s.clearing = true → reg < s.clearIndex) →
    arrayRead cfg s port reg = held l (.gpr reg)
  tgpr : ∀ reg, s.tgpr reg = held l (.tgpr reg)

/-- One cycle's writes: port 1's stands over port 0's. -/
theorem held_writes (cfg : Config) (i : Input) (l : List Write) (reg : Reg) :
    held (l ++ writes cfg i) reg =
      if i.write1 && named cfg i i.write1Reg = reg then i.write1Value
      else if i.write && named cfg i i.writeReg = reg then i.writeValue
      else held l reg := by
  unfold held writes
  rw [lastAt_append, lastAt_append]
  cases i.write1 with
  | true =>
    rw [if_pos rfl, lastAt_singleton]
    by_cases h1 : named cfg i i.write1Reg = reg
    · simp [h1]
    · cases i.write with
      | true =>
        rw [if_pos rfl, lastAt_singleton]
        by_cases h0 : named cfg i i.writeReg = reg <;> simp [h0, h1]
      | false => simp [h1]
  | false =>
    cases i.write with
    | true =>
      rw [if_pos rfl, lastAt_singleton]
      by_cases h0 : named cfg i i.writeReg = reg <;> simp [h0]
    | false => simp

variable {cfg : Config} {s : State} {i : Input} {l : List Write}

theorem named_eq_gpr {reg k : BitVec 5} :
    named cfg i reg = .gpr k ↔ shadowed cfg i reg = false ∧ k = reg := by
  unfold named
  cases shadowed cfg i reg <;> simp [eq_comm]

theorem named_eq_tgpr {reg : BitVec 5} {k : BitVec 2} :
    named cfg i reg = .tgpr k ↔ shadowed cfg i reg = true ∧ k = reg.extractLsb' 0 2 := by
  unfold named
  cases shadowed cfg i reg <;> simp [eq_comm]

/-- An edge that clears zeroes one register more. -/
theorem fileInv_clear (h : FileInv cfg s l) (hlegal : Legal cfg s i) (hrst : i.rstN = true)
    (hclr : s.clearing = true) : FileInv cfg (step cfg s i) (journal cfg l s i) := by
  obtain ⟨rfl, hlvt⟩ := h.clearing hclr
  obtain ⟨hw0, hw1⟩ := hlegal.idle hrst hclr
  have hjournal : journal cfg [] s i = [] := by simp [journal, writes, hrst, hw0, hw1]
  have hnext : nextLvt cfg s i = fun _ => false := by
    funext reg
    simp [nextLvt, arrayWrite1, hw1, hlvt]
  rw [hjournal]
  refine ⟨fun _ => ⟨rfl, by simp [step, hrst, hnext]⟩, ?_, ?_⟩
  · intro port reg hreg
    have hread : arrayRead cfg (step cfg s i) port reg =
        if reg = s.clearIndex then 0 else s.bank0 port reg := by
      simp [arrayRead, step, hrst, hnext, arrayWrite0, arrayReg0, arrayValue0, hclr]
    rw [hread]
    split_ifs with heq
    · rfl
    · -- every register below the next index but this one was cleared before
      have hlt : reg < s.clearIndex := by
        by_cases hlast : s.clearIndex = 31
        · rw [hlast] at heq ⊢
          bv_omega
        · have hlt := hreg (by simpa [step, hrst, hclr] using hlast)
          simp only [step, hrst, hclr, Bool.not_true, Bool.false_eq_true, if_false, if_true] at hlt
          bv_omega
      have hold := h.gpr port reg fun _ => hlt
      rwa [arrayRead, hlvt, Bool.and_false, if_neg Bool.false_ne_true] at hold
  · intro reg
    have hold := h.tgpr reg
    simpa [step, hrst, nextTgpr, hw0, hw1] using hold

/-- An edge that writes leaves each register with its last write. -/
theorem fileInv_write (h : FileInv cfg s l) (hlegal : Legal cfg s i) (hrst : i.rstN = true)
    (hclr : s.clearing = false) : FileInv cfg (step cfg s i) (journal cfg l s i) := by
  have hjournal : journal cfg l s i = l ++ writes cfg i := by simp [journal, hrst]
  have hdual : i.write1 = true → cfg.dualWrite = true := by
    intro hw1
    by_contra hd
    rw [hlegal.single hrst (Bool.eq_false_iff.2 hd)] at hw1
    cases hw1
  rw [hjournal]
  refine ⟨fun hno => absurd hno (by simp [step, hrst, hclr]), ?_, ?_⟩
  · intro port reg _
    have hold := h.gpr port reg fun hno => absurd hno (by simp [hclr])
    have hread : arrayRead cfg (step cfg s i) port reg =
        if arrayWrite1 cfg s i && reg = i.write1Reg then i.write1Value
        else if arrayWrite0 cfg s i && reg = i.writeReg then i.writeValue
        else arrayRead cfg s port reg := by
      simp only [arrayRead, step, nextLvt, hrst, arrayReg0, arrayValue0, hclr, Bool.not_true,
        Bool.false_eq_true, if_false]
      by_cases h1 : (arrayWrite1 cfg s i && decide (reg = i.write1Reg)) = true
      · have hd : cfg.dualWrite = true := by
          simp only [arrayWrite1, Bool.and_eq_true] at h1
          exact h1.1.1.1.1
        simp [h1, hd]
      · by_cases h0 : (arrayWrite0 cfg s i && decide (reg = i.writeReg)) = true <;>
          simp [h1, h0]
    rw [hread, held_writes, hold]
    simp only [named_eq_gpr, arrayWrite1, arrayWrite0, hclr, Bool.decide_and, Bool.decide_eq_false,
      Bool.not_false, Bool.and_true, Bool.false_or, Bool.and_assoc]
    cases hw1 : i.write1 with
    | true => simp [hdual hw1]
    | false => simp
  · intro reg
    have hread : (step cfg s i).tgpr reg = nextTgpr cfg s i reg := by simp [step, hrst]
    rw [hread, held_writes, nextTgpr, ← h.tgpr reg]
    simp only [named_eq_tgpr, Bool.decide_and, Bool.decide_eq_true, Bool.and_assoc]
    cases hw1 : i.write1 with
    | true => simp [hdual hw1]
    | false => simp

/-- **The banks and the table keep the last write of each register.** -/
theorem fileInv_step (h : FileInv cfg s l) (hlegal : Legal cfg s i) :
    FileInv cfg (step cfg s i) (journal cfg l s i) := by
  cases hrst : i.rstN with
  | true =>
    cases hclr : s.clearing with
    | true => exact fileInv_clear h hlegal hrst hclr
    | false => exact fileInv_write h hlegal hrst hclr
  | false =>
    have hjournal : journal cfg l s i = [] := by simp [journal, hrst]
    rw [hjournal]
    refine ⟨fun _ => ⟨rfl, by simp [step, hrst]⟩, ?_, fun reg => by simp [step, hrst, held]⟩
    intro port reg hreg
    have hlt := hreg (by simp [step, hrst])
    simp only [step, hrst, Bool.not_false, if_true] at hlt
    exact absurd hlt (by bv_omega)

/-- The writes of a run since its last reset. -/
def written (cfg : Config) (r : Clocked.Run (machine cfg)) (n : ℕ) : List Write :=
  r.history [] (journal cfg) n

theorem fileInv_run {r : Clocked.Run (machine cfg)} {n : ℕ} (h : r.Obeys (Legal cfg) n) :
    FileInv cfg (r.state n) (written cfg r n) := by
  refine Run.invariant_history ?_ ?_ h
  · rintro s ⟨hclr, hidx, hlvt, htgpr⟩
    refine ⟨fun _ => ⟨rfl, hlvt⟩, ?_, fun reg => by rw [htgpr]; rfl⟩
    intro port reg hreg
    have hlt := hreg hclr
    rw [hidx] at hlt
    exact absurd hlt (by bv_omega)
  · exact fun s l i hs hlegal => fileInv_step hs hlegal

/-- **The two banks are one register file**: once the file is ready, each read port
returns the last write to the register its number names under MSR[TGPR]. -/
theorem reads_last_write (cfg : Config) (r : Clocked.Run (machine cfg)) (n : ℕ)
    (h : r.Obeys (Legal cfg) n) (hready : ready (r.state n) = true) (i : Input) (port : Fin 6) :
    readValue cfg (r.state n) i port =
      held (written cfg r n) (named cfg i (i.readReg port)) := by
  have hinv := fileInv_run h
  have hclr : (r.state n).clearing = false := by simpa [ready] using hready
  unfold readValue named
  split_ifs
  · exact hinv.tgpr _
  · exact hinv.gpr port _ fun hno => absurd hno (by simp [hclr])

/-- A run that clears the file, then writes r1 of both sets and r5 from both ports. -/
def writingRun : Clocked.Run (machine ⟨true, true⟩) where
  start := ⟨true, 0, fun _ _ => 7, fun _ _ => 9, fun _ => false, fun _ => 0⟩
  initial := ⟨rfl, rfl, rfl, rfl⟩
  input k :=
    if k = 32 then { write := true, writeReg := 1, writeValue := 10, tgpr := true }
    else if k = 33 then
      { write := true, writeReg := 5, writeValue := 20, write1 := true, write1Reg := 5
        write1Value := 30 }
    else if k = 34 then { write1 := true, write1Reg := 1, write1Value := 40 }
    else {}

theorem reads_last_write_writingRun :
    readValue ⟨true, true⟩ (writingRun.state 35) { readReg := fun _ => 5 } 0 = 30 ∧
      readValue ⟨true, true⟩ (writingRun.state 35) { readReg := fun _ => 1 } 3 = 40 ∧
      readValue ⟨true, true⟩ (writingRun.state 35) { readReg := fun _ => 1, tgpr := true } 3 = 10 := by
  have hlegal : writingRun.Obeys (Legal ⟨true, true⟩) 35 := by
    intro k hk
    refine ⟨fun _ hclr => ?_, fun _ hd => absurd hd (by decide)⟩
    by_cases hlt : k < 32
    · simp only [writingRun, show k ≠ 32 by omega, show k ≠ 33 by omega, show k ≠ 34 by omega,
        if_false]
      exact ⟨trivial, trivial⟩
    · obtain rfl | rfl | rfl : k = 32 ∨ k = 33 ∨ k = 34 := by omega
      all_goals exact absurd hclr (by decide)
  have hread := reads_last_write ⟨true, true⟩ writingRun 35 hlegal (by decide)
  exact ⟨(hread _ 0).trans (by decide), (hread _ 3).trans (by decide),
    (hread _ 3).trans (by decide)⟩

end Gpr
end SloPPC603
