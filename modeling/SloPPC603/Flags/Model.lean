import SloPPC603.Completion.Model

/-!
# The flags unit

The registers, signals and clock edge of `ppc_flags.sv`: the committed CR and XER,
the token that one CR writer in flight owns, and the one younger writer that may
wait for it.

The survivors of a recovery are the list of the first `recovery_survivor_count_i`
packets and tags, oldest first.
-/

namespace SloPPC603
namespace Flags

/-- The inputs of one cycle. -/
structure Port where
  rstN : Bool := true
  allocValid : Bool := false
  allocNeedsFlags : Bool := false
  allocTag : CompletionTag := default
  waitAlloc : Bool := false
  waitTag : CompletionTag := default
  commit : Bool := false
  commitPacket : RetirePacket := default
  commitTag : CompletionTag := default
  recovery : Bool := false
  survivors : List (RetirePacket × CompletionTag) := []

/-- The registers. -/
structure State where
  cr : BitVec 32
  xer : BitVec 32
  busy : Bool
  owner : CompletionTag
  waiter : Bool
  waiterTag : CompletionTag
  deriving DecidableEq, Repr

/-! ## What a packet writes -/

/-- `owns_token`: an entry that writes only CA, OV or SO takes no token. -/
def ownsToken (p : RetirePacket) : Bool :=
  p.needsFlags &&
    !(!p.writeCrField && !p.writeCrFields && !p.writeCrBit && !p.writeXer &&
      (p.writeCa || p.writeOvSo))

/-- `commit_writes_flags`. -/
def writesFlags (p : RetirePacket) : Bool :=
  p.writeXer || p.writeCa || p.writeOvSo || p.writeCrField || p.writeCrFields || p.writeCrBit

/-- `cr_mask`: the CR bits a packet writes. -/
def crMask (p : RetirePacket) : BitVec 32 :=
  if p.writeCrFields then Completion.expandCrMask p.crMask
  else if p.writeCrBit then 0x80000000#32 >>> p.crBit.toNat
  else if p.writeCrField then 0xf0000000#32 >>> (p.crField.toNat * 4)
  else 0

/-- `xer_mask`: the XER bits a packet writes. -/
def xerMask (p : RetirePacket) : BitVec 32 :=
  if p.writeXer then 0xe000007f#32 else Completion.xerBits p.writeOvSo p.writeOvSo p.writeCa

/-- The CR after a packet commits. -/
def commitCr (p : RetirePacket) (cr : BitVec 32) : BitVec 32 :=
  (cr &&& ~~~(crMask p)) ||| (p.crDelta &&& crMask p)

/-- The XER after a packet commits. -/
def commitXer (p : RetirePacket) (xer : BitVec 32) : BitVec 32 :=
  (xer &&& ~~~(xerMask p)) ||| (p.xerDelta &&& xerMask p)

/-! ## Signals -/

section Signals

variable (s : State) (i : Port)

/-- `waiter_survives`. -/
def waiterSurvives : Bool := i.survivors.any fun x => s.waiter && x.2 = s.waiterTag

/-- `owner_survives`; a survivor that is the waiter is not looked at again. -/
def ownerSurvives : Bool :=
  i.survivors.any fun x =>
    !(s.waiter && x.2 = s.waiterTag) && x.1.needsFlags && s.busy && x.2 = s.owner

/-- `owner_commit`. -/
def ownerCommit : Bool := i.commit && s.busy && i.commitTag = s.owner

/-- `handoff_o`. -/
def handoff : Bool :=
  if i.recovery then s.busy && !ownerSurvives s i && s.waiter && waiterSurvives s i
  else ownerCommit s i && (s.waiter || i.waitAlloc)

/-- `alloc_ready_o`. -/
def allocReady : Bool := i.rstN && !i.recovery && (!i.allocNeedsFlags || !s.busy)

/-- `alloc_fire`. -/
def allocFire : Bool := i.allocValid && i.allocNeedsFlags && allocReady s i

/-! ## The clock edge -/

/-- The next `flags_busy_q`. -/
def nextBusy : Bool :=
  if i.recovery then (if s.busy && !ownerSurvives s i then handoff s i else s.busy)
  else if allocFire s i then true
  else if ownerCommit s i then handoff s i
  else s.busy

/-- The next `flags_owner_q`. -/
def nextOwner : CompletionTag :=
  if i.recovery then
    if s.busy && !ownerSurvives s i then (if handoff s i then s.waiterTag else default)
    else s.owner
  else if allocFire s i then i.allocTag
  else if ownerCommit s i then
    if s.waiter then s.waiterTag else if i.waitAlloc then i.waitTag else default
  else s.owner

/-- The next `waiter_q`. -/
def nextWaiter : Bool :=
  if i.recovery then (if !waiterSurvives s i || handoff s i then false else s.waiter)
  else if i.waitAlloc && !ownerCommit s i then true
  else if ownerCommit s i then false
  else s.waiter

/-- The next `waiter_tag_q`. -/
def nextWaiterTag : CompletionTag :=
  if !i.recovery && i.waitAlloc && !ownerCommit s i then i.waitTag else s.waiterTag

/-- The registers after reset. -/
def resetState : State := ⟨0, 0, false, default, false, default⟩

/-- One clock edge. -/
def step : State :=
  if i.rstN then
    { cr := if i.commit && writesFlags i.commitPacket then commitCr i.commitPacket s.cr else s.cr
      xer :=
        if i.commit && writesFlags i.commitPacket then commitXer i.commitPacket s.xer else s.xer
      busy := nextBusy s i
      owner := nextOwner s i
      waiter := nextWaiter s i
      waiterTag := nextWaiterTag s i }
  else resetState

end Signals

end Flags
end SloPPC603
