import SloPPC603.Special.Pins
import SloPPC603.Special.Sequencer

/-!
# Asynchronous events

The special lane's interrupt path with the latches in front of it: `ppc_special.sv` 1108–1233,
1304–1340 and 1557–1680, the boundary of `ppc_core.sv` 380–394 and 4241–4256, and the pin latches
of `ppc603e.sv` 225–262 and `ppc602.sv` 119–149.

* `Source`, `Source.rank` — what can be acknowledged, highest first.
* `State`, `Input`, `step`, `machine` — the clock edge.
* `ack`, `acks` — the acknowledgements of one cycle.
* `accepts`, `preempts`, `commits` — the edges that the acknowledgements belong to.
-/

namespace SloPPC603
namespace Special

open Exceptions (Event msrEe msrMe)

/-! ## Sources -/

/-- The sources that an interrupt or a preemption acknowledges. -/
inductive Source
  | machineCheckPin | tea | addressParity | dataParity | softReset | watchdogReset | smi
  | external | decrementer | watchdog
  deriving DecidableEq

namespace Source

/-- UM Table 4-2 and 602UM Table 4-3: the place in the order of priorities. -/
def rank : Source → ℕ
  | machineCheckPin => 0
  | tea => 1
  | addressParity => 2
  | dataParity => 3
  | softReset => 4
  | watchdogReset => 5
  | smi => 6
  | external => 7
  | decrementer => 8
  | watchdog => 9

/-- The sources in that order. -/
def ranked : List Source :=
  [machineCheckPin, tea, addressParity, dataParity, softReset, watchdogReset, smi, external,
    decrementer, watchdog]

/-- The event that delivers a source. -/
def kind : Source → Event
  | machineCheckPin => .machineCheckPin
  | tea => .machineCheck
  | addressParity => .machineCheckApe
  | dataParity => .machineCheckDpe
  | softReset | watchdogReset => .softReset
  | smi => .smi
  | external => .external
  | decrementer => .decrementer
  | watchdog => .watchdog

/-- A source that checkstops when MSR[ME] is clear. -/
def checks : Source → Bool
  | machineCheckPin | tea | addressParity | dataParity => true
  | _ => false

end Source

/-- A source that is pending at a boundary and that nothing masks. -/
def Offered.pending (cfg : Cfg) (o : Offered) : Source → Bool
  | .machineCheckPin => o.pin.mcp
  | .tea => pinTea cfg o.pin
  | .addressParity => o.pin.ape
  | .dataParity => o.pin.dpe
  | .softReset => o.pin.softReset
  | .watchdogReset => o.watchdogReset
  | .smi => o.pin.smi && o.msr.getLsbD msrEe
  | .external => o.external && o.msr.getLsbD msrEe
  | .decrementer => o.decrementer && o.msr.getLsbD msrEe
  | .watchdog => o.watchdogInterrupt && o.msr.getLsbD msrEe

/-- The highest source that is pending and enabled. -/
def Offered.Highest (cfg : Cfg) (o : Offered) (src : Source) : Prop :=
  o.pending cfg src = true ∧ ∀ t : Source, t.rank < src.rank → o.pending cfg t = false

/-! ## The machine -/

/-- The pin latches of the chip: each is held until its acknowledgement. -/
structure Latches where
  mcp : Bool := false
  softReset : Bool := false
  tea : Bool := false
  ape : Bool := false
  dpe : Bool := false

/-- The registers. -/
structure State where
  lane : Lane
  /-- `interrupt_q`. -/
  interrupt : Bool
  selected : Selected
  exc : Exceptions.State
  hid0 : BitVec 32
  timer : Timer
  watchdog : Watchdog
  /-- `pin_event_q`. -/
  pin : PinEvent
  /-- `external_irq_q`. -/
  external : Bool
  latches : Latches
  /-- `store_tea_q`. -/
  storeTea : Bool

/-- The inputs of one cycle. -/
structure Input where
  lane : LaneInput
  /-- The instruction in the lane, and what its event reads outside it. -/
  held : Held
  sdr1 : BitVec 32
  fex : Bool
  /-- `commit_i` for the held instruction. -/
  commitMatch : Bool
  /-- The fields of the event that its kind does not decide. -/
  event : Exceptions.Input
  /-- The rest of `interrupt_admit`: nothing older is in flight. -/
  interruptAdmit : Bool
  trace : Bool
  fetchMachineCheckHead : Bool
  stopped : Bool
  /-- What sets the latches. -/
  raise : Latches
  sresetNegated : Bool
  smi : Bool
  irq : Bool
  storeError : Bool
  /-- `timer_tick_i && timer_run`. -/
  tick : Bool
  timebaseEnable : Bool

section Signals

variable (cfg : Cfg) (s : State) (i : Input)

def phase : Phase := s.lane.phase

/-- The registers that the held instruction's event depends on. -/
def view : View := ⟨s.exc.msr, s.exc.srr1, s.hid0, i.sdr1, i.fex⟩

/-- What the boundary sees. -/
def offered : Offered where
  pin := s.pin
  watchdogReset := s.watchdog.reset
  watchdogInterrupt := s.watchdog.interrupt
  decrementer := s.timer.pending
  external := s.external
  trace := i.trace
  msr := s.exc.msr

/-- `pin_interrupt`. -/
def pinInterrupt : Bool :=
  cfg.enablePinInterrupts && !i.fetchMachineCheckHead &&
    (s.pin.mcp || pinTea cfg s.pin || s.pin.ape || s.pin.dpe || s.pin.softReset ||
      (s.pin.smi && s.exc.msr.getLsbD msrEe))

/-- `interrupt_qualified`. -/
def interruptQualified : Bool :=
  cfg.enableExternalInterrupts &&
    ((cfg.exc.enableDebugExceptions && i.trace) || pinInterrupt cfg s i ||
      (s.watchdog.reset && !i.fetchMachineCheckHead) ||
      ((s.external || (cfg.enableTimers && s.timer.pending) || s.watchdog.interrupt) &&
        s.exc.msr.getLsbD msrEe && !i.fetchMachineCheckHead)) &&
    !i.stopped

/-- `interrupt_accept`. -/
def accepts : Bool :=
  cfg.enableExternalInterrupts && (interruptQualified cfg s i && i.interruptAdmit) &&
    s.lane.phase = .idle && !i.lane.cancel

/-- `state_q == S_HOLD && commit_match`. -/
def holdMatch : Bool := s.lane.phase = .hold && i.commitMatch

/-- `hold_commit`. -/
def holdCommit : Bool := !i.lane.cancel && holdMatch s i

/-- The held instruction's own event. -/
def own : Option Event := i.held.ownEvent cfg (view s i)

/-- `pin_preempt`. -/
def preempted : Bool := holdMatch s i && pinPreempt cfg s.pin s.exc.msr (own cfg s i)

/-- `pin_preempt_take`. -/
def preempts : Bool := holdCommit s i && preempted cfg s i

/-- `exception_event_valid` and `exception_event_kind`. -/
def presented : Option Event :=
  if cfg.enableExternalInterrupts && s.lane.phase = .interruptCommit then
    if s.selected.mcp && !s.exc.msr.getLsbD msrMe then none else some s.selected.kind
  else if holdMatch s i then presentedEvent cfg s.pin s.exc.msr (own cfg s i)
  else none

/-- A write of the held `mtspr` to one register. -/
def sprWrite (spr : BitVec 10) : Bool :=
  i.held.uop.specialOp = .mtspr && i.held.uop.spr = spr

/-- A committing `mtmsr` that loads the MSR. -/
def msrLoad : Bool :=
  i.held.uop.specialOp = .mtmsr && !i.held.mtmsrUnsupported cfg (view s i) &&
    !i.held.mtmsrFpEnable cfg (view s i)

/-- The inputs of the exception state. -/
def exceptionInput : Exceptions.Input :=
  { i.event with
    rstN := true
    eventValid := (presented cfg s i).isSome
    eventKind := (presented cfg s i).getD .sc
    resultReady := s.lane.resultReady i.lane
    stateLoadValid := holdMatch s i &&
      (sprWrite i 26 || sprWrite i 27 || (cfg.has602 && sprWrite i 987) || msrLoad cfg s i)
    stateLoadEnable :=
      if i.held.uop.specialOp = .mtmsr then 1
      else if i.held.uop.spr = 26 then 2
      else if i.held.uop.spr = 27 then 4
      else 8
    stateLoadMsr := i.held.mtmsrValue cfg (view s i) }

/-- `exception_event_ready`. -/
def eventReady : Bool := Exceptions.slotAvailable s.exc (exceptionInput cfg s i)

/-- The event of the cycle is taken. -/
def fires : Bool := (presented cfg s i).isSome && eventReady cfg s i

/-- `checkstop_commit`. -/
def checkstopCommit : Bool :=
  holdMatch s i && i.held.machineCheckEvent cfg &&
    (!s.exc.msr.getLsbD msrMe || i.held.uop.fetchFault = .teaRepeat)

/-- `tlb_fill_opcode`. -/
def tlbFillOpcode : Bool := i.held.uop.specialOp = .tlbld || i.held.uop.specialOp = .tlbli

/-- `tlb_fill_operation`. -/
def tlbFillOperation : Bool :=
  cfg.enableTlbLoad && tlbFillOpcode i && !i.held.tlbFillLocalError && !i.held.tlbFillInvalidate

/-- `mmu_operation`. -/
def mmuOperation : Bool :=
  (cfg.enableRuntimeBat &&
    (i.held.uop.specialOp = .mfspr || i.held.uop.specialOp = .mtspr) &&
    528 ≤ i.held.uop.spr && i.held.uop.spr ≤ 543) ||
  (cfg.enableSegmentRegisters &&
    (i.held.uop.specialOp = .mfsr || i.held.uop.specialOp = .mtsr)) ||
  (cfg.enableTlbInvalidate &&
    (i.held.uop.specialOp = .tlbie || (tlbFillOpcode i && i.held.tlbFillInvalidate))) ||
  tlbFillOperation cfg i

/-- `hid0_write`. -/
def hid0Write : Bool := cfg.exc.enableFullDecode && sprWrite i 1008

/-- `icache_change`. -/
def icacheChange : Bool :=
  hid0Write cfg i &&
    ((cfg.hasIce && i.held.a.getLsbD hid0Ice ≠ s.hid0.getLsbD hid0Ice) ||
      i.held.a.getLsbD hid0Icfi)

/-- `context_install`. -/
def contextInstall : Bool :=
  (i.held.uop.specialOp = .mtmsr && !i.held.mtmsrUnsupported cfg (view s i)) ||
    (cfg.enableSdr1 && sprWrite i 25) || hid0Write cfg i ||
    (cfg.exc.enableFullDecode && i.held.uop.specialOp = .trap)

/-- What the sequencer reads of the commit. -/
def commit : Commit where
  accept := accepts cfg s i
  commitMatch := i.commitMatch
  interrupt := s.interrupt
  mcpSelected := s.selected.mcp
  machineCheckEnable := s.exc.msr.getLsbD msrMe
  eventValid := (presented cfg s i).isSome
  eventReady := eventReady cfg s i
  checkstopCommit := checkstopCommit cfg s i
  mmuOperation := mmuOperation cfg i
  tlbFillOperation := tlbFillOperation cfg i
  mmuError := i.held.mmuError
  icacheChange := icacheChange cfg s i
  contextInstall := contextInstall cfg s i
  resultValid := s.exc.resultValid
  resultSupported := s.exc.resultSupported

/-! ### Acknowledgements -/

/-- The acknowledgements that a boundary gives as it is accepted. -/
def Offered.ack (cfg : Cfg) (o : Offered) : Source → Bool
  | .machineCheckPin => mcpSelect cfg o.pin && o.pin.mcp
  | .tea => mcpSelect cfg o.pin && !o.pin.mcp && pinTea cfg o.pin
  | .addressParity => mcpSelect cfg o.pin && !o.pin.mcp && !pinTea cfg o.pin && o.pin.ape
  | .dataParity => mcpSelect cfg o.pin && !o.pin.mcp && !pinTea cfg o.pin && !o.pin.ape
  | .softReset => softResetSelect cfg o && !watchdogResetSelect cfg o
  | .watchdogReset => watchdogResetSelect cfg o
  | .smi => smiSelect cfg o
  | _ => false

/-- The acknowledgements of a preemption. -/
def preemptAck (cfg : Cfg) (p : PinEvent) : Source → Bool
  | .machineCheckPin => mcpSelect cfg p && p.mcp
  | .tea => mcpSelect cfg p && !p.mcp && pinTea cfg p
  | .addressParity => mcpSelect cfg p && !p.mcp && !pinTea cfg p && p.ape
  | .dataParity => mcpSelect cfg p && !p.mcp && !pinTea cfg p && !p.ape
  | .softReset => !mcpSelect cfg p
  | _ => false

/-- `interrupt_taken_o`, `decrementer_taken_o` and `watchdog_taken`. -/
def Selected.taken (f : Selected) : Source → Bool
  | .external =>
    !f.decrementer && !f.trace && !(f.mcp || f.softReset || f.smi) && !f.watchdog
  | .decrementer => f.decrementer
  | .watchdog => f.watchdog
  | _ => false

/-- A machine check at an instruction also answers a pending TEA. -/
def answers (src : Source) : Bool :=
  src = .tea && holdCommit s i && i.held.machineCheckEvent cfg && s.exc.msr.getLsbD msrMe

/-- The acknowledgement of a source in one cycle. -/
def ack (src : Source) : Bool :=
  (accepts cfg s i && (offered s i).ack cfg src) ||
    (preempts cfg s i && preemptAck cfg s.pin src) || answers cfg s i src ||
    (s.lane.phase = .interruptCommit && fires cfg s i && s.selected.taken src)

/-- The sources that one cycle acknowledges. -/
def acks : List Source := Source.ranked.filter (ack cfg s i)

/-- The commit of an interrupt: its event is taken, or the lane checkstops instead. -/
def commits : Bool :=
  s.lane.phase = .interruptCommit &&
    (fires cfg s i || (s.selected.mcp && !s.exc.msr.getLsbD msrMe))

/-! ### The clock edge -/

/-- A latch that its pin sets and its acknowledgement clears. -/
def held (raised latched taken : Bool) : Bool := raised || (latched && !taken)

/-- The latches' edge. -/
def Latches.step (l raise : Latches) (taken : Source → Bool) : Latches where
  mcp := held raise.mcp l.mcp (taken .machineCheckPin)
  softReset := held raise.softReset l.softReset (taken .softReset)
  tea := held raise.tea l.tea (taken .tea)
  ape := held raise.ape l.ape (taken .addressParity)
  dpe := held raise.dpe l.dpe (taken .dataParity)

/-- `store_tea_q`'s next value. -/
def storeTeaNext : Bool :=
  cfg.exc.enableMachineCheck && held i.storeError s.storeTea (ack cfg s i .tea)

/-- `pin_event_q`'s next value. -/
def pinNext : PinEvent :=
  let sampled : PinEvent :=
    if cfg.enablePinInterrupts then
      { mcp := s.latches.mcp
        softReset := s.latches.softReset && i.sresetNegated
        smi := i.smi
        tea := s.latches.tea
        ape := s.latches.ape
        dpe := s.latches.dpe }
    else {}
  { sampled with tea := sampled.tea || storeTeaNext cfg s i }

/-- The held instruction's write to TB or DEC. -/
def timerWrite : Option (BitVec 10 × BitVec 32) :=
  if holdMatch s i && (sprWrite i 22 || sprWrite i 284 || sprWrite i 285) then
    some (i.held.uop.spr, i.held.a)
  else none

/-- `hid0_q`'s next value. -/
def hid0Next : BitVec 32 :=
  if holdCommit s i && hid0Write cfg i &&
      !powerModeUnsupported cfg (s.exc.msr.getLsbD Exceptions.msrPow) i.held.a then
    i.held.a &&& cfg.hid0Wmask
  else if cfg.hasIce && ack cfg s i .softReset then Words.setBit s.hid0 hid0Ice false
  else s.hid0

/-- `interrupt_q`'s next value. -/
def interruptNext : Bool :=
  if accepts cfg s i then true
  else if s.lane.dispatchFire i.lane then false
  else if s.lane.stepRun i.lane && s.lane.phase = .contextRedirect && i.lane.redirectAccepted then
    false
  else s.interrupt

/-- The selection registers' next values: only a provisional decrementer or watchdog gives way. -/
def selectedNext : Selected :=
  if accepts cfg s i then select cfg (offered s i)
  else if !s.lane.dispatchFire i.lane && s.lane.stepRun i.lane && s.lane.phase = .contextDrain &&
      i.lane.quiescent && s.interrupt && s.external then
    s.selected.promote
  else s.selected

/-- The clock edge. -/
def step : State where
  lane := s.lane.next i.lane (commit cfg s i)
  interrupt := interruptNext cfg s i
  selected := selectedNext cfg s i
  exc := Exceptions.step cfg.exc s.exc (exceptionInput cfg s i)
  hid0 := hid0Next cfg s i
  timer :=
    if cfg.enableTimers then
      s.timer.step i.tick i.timebaseEnable (timerWrite s i) (ack cfg s i .decrementer)
    else s.timer
  watchdog :=
    if cfg.has602 && cfg.exc.enableFullDecode then
      s.watchdog.step
        (cfg.enableTimers && i.tick && i.timebaseEnable &&
          !(holdMatch s i && (sprWrite i 284 || sprWrite i 285)))
        (s.timer.timebase.extractLsb' 0 26)
        (if holdCommit s i && sprWrite i 984 then some i.held.a else none)
        (ack cfg s i .watchdog) (ack cfg s i .watchdogReset)
    else s.watchdog
  pin := pinNext cfg s i
  external := cfg.enableExternalInterrupts && i.irq
  latches := s.latches.step i.raise (ack cfg s i)
  storeTea := storeTeaNext cfg s i

end Signals

/-- The registers after a reset. -/
def reset (cfg : Cfg) (hid0 : BitVec 32) : State where
  lane := {}
  interrupt := false
  selected := {}
  exc :=
    { msr := cfg.exc.resetMsr &&& Exceptions.msrMask cfg.exc, srr0 := cfg.exc.resetSrr0
      srr1 := cfg.exc.resetSrr1, esasrr := 0, resultValid := false, resultSupported := false
      resultTarget := 0 }
  hid0 := hid0
  timer := {}
  watchdog := {}
  pin := {}
  external := false
  latches := {}
  storeTea := false

/-- The machine. -/
def machine (cfg : Cfg) : Clocked.Machine State Input where
  Initial s := ∃ hid0, s = reset cfg hid0
  step := step cfg

/-- `exception_irrevocable_o` blocks a recovery: a selected interrupt and a committed event are
never cut. -/
def Uncut (cfg : Cfg) (s : State) (i : Input) : Prop :=
  s.interrupt = true ∨ (presented cfg s i).isSome = true ∨ s.lane.phase = .exceptionResult →
    i.lane.cancel = false

/-- The watchdog's reset is pending behind an SMI that its mask leaves out. -/
def hidden (cfg : Cfg) (o : Offered) : Bool :=
  o.watchdogReset && o.pin.smi && o.msr.getLsbD msrEe && !pinMachineCheck cfg o.pin &&
    !o.pin.softReset && !traced cfg o

end Special
end SloPPC603
