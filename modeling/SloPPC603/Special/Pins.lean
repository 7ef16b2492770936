import SloPPC603.Special.Held

/-!
# Pin boundaries

The pin events that the special lane selects at an interrupt boundary, and those that preempt an
instruction's exception: `ppc_special.sv` 1199–1213 and 1557–1611.

* `PinEvent`, `Offered` — the registered pins, and what is pending at a boundary.
* `mcpSelect`, `watchdogResetSelect`, `softResetSelect`, `smiSelect` — the masks.
* `pinPreempt`, `presentedEvent` — a held commit's event with the pins over it.
-/

namespace SloPPC603
namespace Special

open Exceptions (Event msrEe msrMe)

/-- `pin_event_t`, as the core registers it. -/
structure PinEvent where
  mcp : Bool := false
  softReset : Bool := false
  smi : Bool := false
  tea : Bool := false
  ape : Bool := false
  dpe : Bool := false

/-- What is pending at a boundary, and the MSR. -/
structure Offered where
  pin : PinEvent
  watchdogReset : Bool
  watchdogInterrupt : Bool
  decrementer : Bool
  /-- `external_irq_q`. -/
  external : Bool
  /-- `interrupt_trace_i`. -/
  trace : Bool
  msr : BitVec 32

section Masks

variable (cfg : Cfg) (p : PinEvent)

/-- `pin_tea`. -/
def pinTea : Bool := cfg.enableDataCache && p.tea

/-- `pin_machine_check`. -/
def pinMachineCheck : Bool := p.mcp || pinTea cfg p || p.ape || p.dpe

/-- `pin_mcp_select`. -/
def mcpSelect : Bool := cfg.enablePinInterrupts && pinMachineCheck cfg p

/-- `pin_preempt_select`. -/
def preemptSelect (msr : BitVec 32) : Bool :=
  cfg.enableExternalInterrupts && cfg.enablePinInterrupts &&
    if mcpSelect cfg p then msr.getLsbD msrMe else p.softReset

/-- An event that no pin replaces. -/
def keeps (kind : Event) : Bool := kind = .rfi || kind = .rfiFpEnable || kind = .machineCheck

/-- `pin_preempt`. -/
def pinPreempt (msr : BitVec 32) (own : Option Event) : Bool :=
  match own with
  | some kind => preemptSelect cfg p msr && !keeps kind
  | none => false

/-- The kind that a preempting pin presents. -/
def preemptKind : Event :=
  if !mcpSelect cfg p then .softReset
  else if p.mcp then .machineCheckPin
  else if pinTea cfg p then .machineCheck
  else if p.ape then .machineCheckApe
  else .machineCheckDpe

/-- The event of a held commit, with the pins over it. -/
def presentedEvent (msr : BitVec 32) (own : Option Event) : Option Event :=
  if pinPreempt cfg p msr own then some (preemptKind cfg p) else own

end Masks

section Boundary

variable (cfg : Cfg) (o : Offered)

/-- The trace that debug exceptions take. -/
def traced : Bool := cfg.exc.enableDebugExceptions && o.trace

/-- `watchdog_reset_select`. -/
def watchdogResetSelect : Bool :=
  o.watchdogReset && !pinMachineCheck cfg o.pin && !(cfg.enablePinInterrupts && o.pin.softReset)

/-- `pin_soft_reset_select`. -/
def softResetSelect : Bool :=
  (cfg.enablePinInterrupts && o.pin.softReset && !pinMachineCheck cfg o.pin) ||
    watchdogResetSelect cfg o

/-- `pin_smi_select`. -/
def smiSelect : Bool :=
  cfg.enablePinInterrupts && o.pin.smi && o.msr.getLsbD msrEe && !pinMachineCheck cfg o.pin &&
    !o.pin.softReset && !traced cfg o

/-- `interrupt_decrementer_i`. -/
def decrementerOffered : Bool := cfg.enableTimers && !o.external

/-- The selection registers: what a boundary latches. -/
structure Selected where
  mcp : Bool := false
  tea : Bool := false
  ape : Bool := false
  dpe : Bool := false
  softReset : Bool := false
  smi : Bool := false
  trace : Bool := false
  decrementer : Bool := false
  watchdog : Bool := false
  deriving DecidableEq

/-- The flags that an accepted boundary sets. -/
def select : Selected where
  mcp := mcpSelect cfg o.pin
  tea := mcpSelect cfg o.pin && !o.pin.mcp && pinTea cfg o.pin
  ape := mcpSelect cfg o.pin && !o.pin.mcp && !pinTea cfg o.pin && o.pin.ape
  dpe := mcpSelect cfg o.pin && !o.pin.mcp && !pinTea cfg o.pin && !o.pin.ape
  softReset := softResetSelect cfg o
  smi := smiSelect cfg o
  trace := traced cfg o && !mcpSelect cfg o.pin && !softResetSelect cfg o
  decrementer := decrementerOffered cfg o && !traced cfg o && !mcpSelect cfg o.pin &&
    !softResetSelect cfg o && !smiSelect cfg o && !(o.watchdogInterrupt && !o.decrementer)
  watchdog := o.watchdogInterrupt && o.msr.getLsbD msrEe && decrementerOffered cfg o &&
    !o.decrementer && !traced cfg o && !mcpSelect cfg o.pin && !softResetSelect cfg o &&
    !smiSelect cfg o

/-- `interrupt_q && external_irq_i` as the drain ends. -/
def Selected.promote (f : Selected) : Selected :=
  { f with decrementer := false, watchdog := false }

/-- The kind that the interrupt's commit presents. -/
def Selected.kind (f : Selected) : Event :=
  if f.mcp then
    if f.tea then .machineCheck
    else if f.ape then .machineCheckApe
    else if f.dpe then .machineCheckDpe
    else .machineCheckPin
  else if f.softReset then .softReset
  else if f.trace then .trace
  else if f.smi then .smi
  else if f.decrementer then .decrementer
  else if f.watchdog then .watchdog
  else .external

end Boundary

end Special
end SloPPC603
