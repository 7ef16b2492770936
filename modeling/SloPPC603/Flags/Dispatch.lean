import SloPPC603.Completion.Entries
import SloPPC603.Flags.Decode
import SloPPC603.Flags.Model

/-!
# Dispatch, completion and the flags unit

The part of `ppc_core.sv` that claims the flags: the dispatch conditions of the
two lanes, the pending-writer registers of CA and SO, the wiring of the
completion queue and of the flags unit, and the CA and SO bits captured with each
operation.  The three units make one clocked machine.

What the other units contribute is an input.  `want0` and `want1` stand for
every dispatch condition that reads no flag, so they may hold a lane back on any
cycle; a lane is given by its instruction word, by the exception that stands in
for it, and by the classes the core puts it in.
-/

namespace SloPPC603
namespace Flags

/-! ## Inputs and registers -/

/-- What `dispatch_pre` puts in the place of a faulting, privileged or FP word. -/
inductive Diagnostic
  | illegal | isi | programPriv | emulationTrap | fpUnavailable
  deriving DecidableEq, Repr

/-- The operation of a diagnostic: all zero but its class. -/
def Diagnostic.uop : Diagnostic → Uop
  | .illegal => { illegal := true }
  | .isi => { specialOp := .isi }
  | .programPriv => { specialOp := .programPriv }
  | .emulationTrap => { specialOp := .emulationTrap }
  | .fpUnavailable => { specialOp := .fpUnavailable }

/-- A dispatch lane. -/
structure Lane where
  insn : BitVec 32 := 0
  /-- A diagnostic put in the word's place. -/
  replaced : Option Diagnostic := none
  /-- The access is misaligned and its part traps on it (`dispatch_align`). -/
  misaligned : Bool := false
  /-- `bu_branch`, `d1_branch`. -/
  branch : Bool := false
  /-- `bu_remove`, `d1_remove`. -/
  removed : Bool := false
  /-- `fp_uop`, `d1_fp`. -/
  fp : Bool := false
  /-- The access or move dispatches without waiting for the queue to drain. -/
  plain : Bool := false
  /-- `bu_finished`. -/
  finished : Bool := false
  /-- The fields of the allocation that the flags do not decide. -/
  packet : RetirePacket := default

/-- The inputs of one cycle. -/
structure Input where
  /-- The queue's inputs; its allocation ports are wired to the lanes. -/
  cq : Completion.Input := {}
  want0 : Bool := false
  lane0 : Lane := {}
  want1 : Bool := false
  lane1 : Lane := {}
  fpHead : Bool := false
  /-- The CR field of the FP result at the head. -/
  fpCrValue : BitVec 4 := 0

/-- What a unit holds of an operation: its controls, the bits a station captures
with it (`ca_in`, `so_in`) and those the special unit does (`xer_flags_q`). -/
structure Operand where
  tag : CompletionTag
  uop : Uop
  caIn : Bool
  soIn : Bool
  xerFlags : BitVec 3
  deriving DecidableEq, Repr

/-- The parameters. -/
structure Config where
  cq : Completion.Config
  decode : DecodeConfig

/-- The registers. -/
structure System where
  cq : Completion.State
  flags : State
  caPending : Bool
  caWriter : CompletionTag
  soPending : Bool
  soWriter : CompletionTag
  /-- The operands of the entries in flight, oldest first. -/
  operands : List Operand

/-! ## Lanes -/

/-- A load or store that traps on its alignment keeps its flag fields. -/
def Uop.align (u : Uop) (misaligned : Bool) : Uop :=
  if misaligned && !u.illegal && (u.specialOp = .load || u.specialOp = .store) then
    { u with specialOp := .alignment }
  else u

/-- The operation a lane dispatches. -/
def Lane.uop (dec : DecodeConfig) (l : Lane) : Uop :=
  match l.replaced with
  | some d => d.uop
  | none => (decode dec l.insn).align l.misaligned

/-- The operation reads or writes a flag. -/
def Uop.flagged (u : Uop) : Bool :=
  u.needsFlags || u.readCa || u.readSo || u.writeXer || u.writeCa || u.writeOvSo ||
    u.writeCrField || u.writeCrFields || u.writeCrBit

/-- `xer_only`. -/
def Uop.xerOnly (u : Uop) : Bool :=
  !u.writeCrField && !u.writeCrFields && !u.writeCrBit && !u.writeXer &&
    (u.writeCa || u.writeOvSo)

/-- The operation writes XER[CA]. -/
def Uop.writesCa (u : Uop) : Bool := u.writeCa || u.writeXer

/-- The operation writes XER[SO]. -/
def Uop.writesSo (u : Uop) : Bool := u.writeOvSo || u.writeXer

/-- The allocation of a lane; `illegal` and `needs` are the lane's own. -/
def Lane.allocation (l : Lane) (u : Uop) (illegal needs : Bool) : RetirePacket :=
  { l.packet with
    illegal := illegal
    needsFlags := needs
    writeXer := u.writeXer
    writeCa := u.writeCa
    writeOvSo := u.writeOvSo
    writeCrField := u.writeCrField
    crField := u.crField
    writeCrFields := u.writeCrFields
    crMask := u.crMask
    writeCrBit := u.writeCrBit
    crBit := u.crBit
    branch := l.branch
    fprWrite := l.fp }

/-! ## Dispatch -/

section Signals

variable (cfg : Config) (s : System) (i : Input)

/-- `dispatch_uop`. -/
def uop0 : Uop := i.lane0.uop cfg.decode

/-- `dq1_uop`. -/
def uop1 : Uop := i.lane1.uop cfg.decode

/-- `recovery_accepted`. -/
def recovery : Bool := Completion.redirectAccepted cfg.cq s.cq i.cq

/-- `cq_empty`. -/
def cqEmpty : Bool := s.cq.count = 0

/-- `cq_ready`. -/
def cqReady : Bool := Completion.allocReady cfg.cq s.cq i.cq

/-- `cq1_ready`. -/
def cq1Ready : Bool :=
  Completion.alloc1Ready cfg.cq s.cq { i.cq with alloc1AtTail := i.lane0.removed }

/-- `dispatch_needs_flags`. -/
def dispatchNeedsFlags : Bool :=
  !(uop0 cfg i).illegal && !i.lane0.fp && (uop0 cfg i).flagged

/-- `d1_needs_flags`. -/
def d1NeedsFlags : Bool := !i.lane1.fp && !i.lane1.branch && (uop1 cfg i).flagged

/-- `flags_tok0`. -/
def flagsTok0 : Bool := dispatchNeedsFlags cfg i && !(uop0 cfg i).xerOnly

/-- `flags_tok1`. -/
def flagsTok1 : Bool := d1NeedsFlags cfg i && !(uop1 cfg i).xerOnly

/-- `xer_ready0`. -/
def xerReady0 : Bool :=
  !((uop0 cfg i).readCa && s.caPending) && !((uop0 cfg i).readSo && s.soPending)

/-- `xer_ready1`. -/
def xerReady1 : Bool :=
  !((uop1 cfg i).readCa &&
      (s.caPending || (dispatchNeedsFlags cfg i && (uop0 cfg i).writesCa))) &&
    !((uop1 cfg i).readSo &&
      (s.soPending || (dispatchNeedsFlags cfg i && (uop0 cfg i).writesSo)))

/-- `normal_uop`. -/
def normalUop : Bool :=
  i.lane0.branch || (!(uop0 cfg i).illegal && (uop0 cfg i).specialOp = .none)

/-- `special_uop`. -/
def specialUop : Bool :=
  !i.lane0.branch && !(uop0 cfg i).illegal && !i.lane0.fp && (uop0 cfg i).specialOp ≠ .none

/-- `special_drained`: a special operation waits for an empty queue, a plain
access or an LR or CTR move need not. -/
def specialDrained : Bool := cqEmpty s || i.lane0.plain

/-- `c0_iu`. -/
def c0Iu : Bool := normalUop cfg i && !i.lane0.branch

/-- `d1_iu`. -/
def d1Iu : Bool := !(uop1 cfg i).illegal && (uop1 cfg i).specialOp = .none

/-- `cr_wait_ok0`. -/
def crWaitOk0 : Bool := c0Iu cfg i && !(uop0 cfg i).writeCrFields && !(uop0 cfg i).writeCrBit

/-- `cr_wait_ok1`. -/
def crWaitOk1 : Bool := d1Iu cfg i && !(uop1 cfg i).writeCrFields && !(uop1 cfg i).writeCrBit

/-- `cr_wait0`. -/
def crWait0 : Bool := flagsTok0 cfg i && s.flags.busy

/-- `cr_wait1`. -/
def crWait1 : Bool := flagsTok1 cfg i && (flagsTok0 cfg i || s.flags.busy)

/-- `flags_ready`. -/
def flagsReady : Bool :=
  i.cq.rstN && !recovery cfg s i && xerReady0 cfg s i &&
    (!flagsTok0 cfg i || (!s.flags.waiter && (!s.flags.busy || crWaitOk0 cfg i)))

/-- `dispatch`. -/
def dispatch : Bool :=
  i.want0 && (cqReady cfg s i || (i.lane0.removed && !recovery cfg s i)) &&
    ((uop0 cfg i).illegal || (i.lane0.fp && flagsReady cfg s i) ||
      (normalUop cfg i && flagsReady cfg s i) ||
      (specialUop cfg i && specialDrained s i && flagsReady cfg s i))

/-- `dispatch1`: the second lane takes an integer operation, a plain access, an
FP operation or a branch. -/
def dispatch1 : Bool :=
  dispatch cfg s i && i.want1 &&
    (d1Iu cfg i || i.lane1.plain || i.lane1.fp || i.lane1.branch) &&
    (cq1Ready cfg s i || i.lane1.removed) &&
    (!flagsTok1 cfg i ||
      (!s.flags.waiter && (!crWait1 cfg s i || (crWaitOk1 cfg i && !crWait0 cfg s i)))) &&
    (!d1NeedsFlags cfg i || xerReady1 cfg s i)

/-! ## The wiring of the two units -/

/-- `allocation`. -/
def allocation0 : RetirePacket :=
  i.lane0.allocation (uop0 cfg i) (uop0 cfg i).illegal (dispatchNeedsFlags cfg i)

/-- `allocation1`. -/
def allocation1 : RetirePacket :=
  i.lane1.allocation (uop1 cfg i) false (d1NeedsFlags cfg i)

/-- The ports of the completion queue. -/
def ports : Completion.Input :=
  { i.cq with
    allocValid := dispatch cfg s i && !i.lane0.removed
    alloc := allocation0 cfg i
    allocFinished := i.lane0.fp || i.lane0.finished
    alloc1Valid := dispatch1 cfg s i && !i.lane1.removed
    alloc1AtTail := i.lane0.removed
    alloc1 := allocation1 cfg i
    alloc1Finished := i.lane1.fp || i.lane1.branch }

/-- `alloc_producer`. -/
def allocProducer : CompletionTag := Completion.allocTag s.cq

/-- `alloc1_producer`. -/
def alloc1Producer : CompletionTag := Completion.alloc1Tag s.cq (ports cfg s i)

/-- `commit`. -/
def commit : Bool := Completion.retireFire cfg.cq s.cq (ports cfg s i)

/-- `commit1`. -/
def commit1 : Bool := Completion.retire1Fire cfg.cq s.cq (ports cfg s i)

/-- `retire_o`: an FP head retires without the token and with the CR field of its
result. -/
def retireO : RetirePacket :=
  let p := Completion.retire cfg.cq s.cq (ports cfg s i)
  { p with
    needsFlags := p.needsFlags && !i.fpHead
    crDelta :=
      if i.fpHead then
        if p.writeCrField then (i.fpCrValue ++ 0#28) >>> (p.crField.toNat * 4) else 0
      else p.crDelta }

/-- `retire1_o`. -/
def retire1O : RetirePacket := Completion.retire1 cfg.cq s.cq (ports cfg s i)

/-- `flags_commit1`. -/
def flagsCommit1 : Bool := commit1 cfg s i && (retire1O cfg s i).needsFlags

/-- The entries that stay, with the packets they had before the edge. -/
def survivors : List Completion.Entry :=
  ((Completion.entries s.cq).take (Completion.kept cfg.cq s.cq (ports cfg s i))).drop
    (Completion.pops cfg.cq s.cq (ports cfg s i))

/-- The ports of the flags unit. -/
def flagsPort : Port where
  rstN := i.cq.rstN
  allocValid := dispatch cfg s i
  allocNeedsFlags := (flagsTok0 cfg i && !crWait0 cfg s i) ||
    (dispatch1 cfg s i && flagsTok1 cfg i && !crWait1 cfg s i)
  allocTag := if flagsTok0 cfg i then allocProducer s else alloc1Producer cfg s i
  waitAlloc := dispatch cfg s i &&
    (crWait0 cfg s i || (dispatch1 cfg s i && crWait1 cfg s i))
  waitTag := if crWait0 cfg s i then allocProducer s else alloc1Producer cfg s i
  commit := commit cfg s i
  commitPacket := if flagsCommit1 cfg s i then retire1O cfg s i else retireO cfg s i
  commitTag :=
    if flagsCommit1 cfg s i then Completion.retire1Tag s.cq else Completion.retireTag s.cq
  recovery := recovery cfg s i
  survivors :=
    if recovery cfg s i then (survivors cfg s i).map (fun e => (e.packet, e.tag)) else []

/-! ## The clock edge -/

/-- A retiring tag. -/
def retires (tag : CompletionTag) : Bool :=
  (commit cfg s i && Completion.retireTag s.cq = tag) ||
    (commit1 cfg s i && Completion.retire1Tag s.cq = tag)

/-- Lane 0 dispatches a writer of the bit `writes` tells. -/
def claims0 (writes : Uop → Bool) : Bool :=
  dispatch cfg s i && dispatchNeedsFlags cfg i && writes (uop0 cfg i)

/-- Lane 1 does. -/
def claims1 (writes : Uop → Bool) : Bool :=
  dispatch1 cfg s i && d1NeedsFlags cfg i && writes (uop1 cfg i)

/-- The next `ca_pending_q` and `so_pending_q`: the two bits have one rule. -/
def nextPending (writes : Uop → Bool) (pending : Bool) (writer : CompletionTag) : Bool :=
  if claims1 cfg s i writes then true
  else if claims0 cfg s i writes then true
  else if cqEmpty s || retires cfg s i writer then false
  else pending

/-- The next `ca_writer_q` and `so_writer_q`. -/
def nextWriter (writes : Uop → Bool) (writer : CompletionTag) : CompletionTag :=
  if claims1 cfg s i writes then alloc1Producer cfg s i
  else if claims0 cfg s i writes then allocProducer s
  else writer

/-- What the units capture of a lane's operation. -/
def capture (tag : CompletionTag) (u : Uop) : Operand :=
  ⟨tag, u, u.readCa && s.flags.xer.getLsbD 29, u.readSo && s.flags.xer.getLsbD 31,
    s.flags.xer.extractLsb' 29 3⟩

/-- The operands captured on this edge, lane 0's first. -/
def freshOperands : List Operand :=
  (if Completion.allocFire cfg.cq s.cq (ports cfg s i) then
    [capture s (allocProducer s) (uop0 cfg i)] else []) ++
  (if Completion.alloc1Fire cfg.cq s.cq (ports cfg s i) then
    [capture s (alloc1Producer cfg s i) (uop1 cfg i)] else [])

/-- The operands after the edge. -/
def nextOperands : List Operand :=
  (s.operands.take (Completion.kept cfg.cq s.cq (ports cfg s i))).drop
      (Completion.pops cfg.cq s.cq (ports cfg s i)) ++
    freshOperands cfg s i

/-- The registers after reset. -/
def System.reset : System :=
  ⟨Completion.resetState, resetState, false, default, false, default, []⟩

/-- One clock edge. -/
def System.step : System :=
  if i.cq.rstN then
    { cq := Completion.step cfg.cq s.cq (ports cfg s i)
      flags := Flags.step s.flags (flagsPort cfg s i)
      caPending := nextPending cfg s i Uop.writesCa s.caPending s.caWriter
      caWriter := nextWriter cfg s i Uop.writesCa s.caWriter
      soPending := nextPending cfg s i Uop.writesSo s.soPending s.soWriter
      soWriter := nextWriter cfg s i Uop.writesSo s.soWriter
      operands := nextOperands cfg s i }
  else System.reset

end Signals

/-- The three units as a clocked machine, started by an edge in reset. -/
def machine (cfg : Config) : Clocked.Machine System Input where
  Initial := fun s => ∃ s₀ i, i.cq.rstN = false ∧ s = System.step cfg s₀ i
  step := System.step cfg

end Flags
end SloPPC603
