import SloPPC603.Pkg
import SloPPC603.Clocked.Machine

/-!
# The fetch unit

The registers, combinational signals and clock edge of `ppc_fetch.sv`: one
request outstanding at a time, the next one offered on the edge that consumes a
response, a buffer for one response the queue had no room for, and the address
of a redirect that has to wait for an old request.

The hints of a response are its two words' hints, the second absent from a
build that fetches one word.  `stop_skipped` is the register of the module's
own checks.  Beside the module the state holds the responder's side of the
request port: the address of the request it accepted and has not answered.
-/

namespace SloPPC603
namespace Fetch

/-! ## Parameters, inputs and registers -/

/-- The module's parameters. -/
structure Config where
  resetPc : BitVec 32 := 0xfff00100
  fetchWidth : ℕ := 1
  enableFetchHints : Bool := false

/-- The inputs of one cycle. -/
structure Input where
  rstN : Bool := true
  stop : Bool := false
  redirect : Bool := false
  redirectTarget : BitVec 32 := 0
  early : Bool := false
  earlyOk : Bool := false
  earlyTarget : BitVec 32 := 0
  reqReady : Bool := false
  rspValid : Bool := false
  rspInsn : BitVec 32 := 0
  rspFault : FetchFault := .ok
  rspEsa : EsaEnable := .denied
  rspPair : Bool := false
  rspInsn1 : BitVec 32 := 0
  rspHints : BitVec 3 := 0
  rspHints1 : BitVec 3 := 0
  packetReady : Bool := false
  packetReady2 : Bool := false
  packetRoom2 : Bool := false

/-- The registers. -/
structure State where
  pending : Bool
  requestHeld : Bool
  redirectPending : Bool
  pc : BitVec 32
  pcPlus4 : BitVec 32
  pcPlus8 : BitVec 32
  redirectTarget : BitVec 32
  bufValid : Bool
  bufPair : Bool
  bufPc : BitVec 32
  bufInsn : BitVec 32
  bufInsn1 : BitVec 32
  bufEsa : EsaEnable
  bufHints : BitVec 3
  bufHints1 : BitVec 3
  stopSkipped : Bool

/-- `fetch_packet_t` with its hints: one fetched word. -/
structure Packet where
  pc : BitVec 32
  insn : BitVec 32
  fault : FetchFault
  esa : EsaEnable
  hints : BitVec 3
  deriving DecidableEq, Repr

/-! ## Signals -/

section Signals

variable (cfg : Config) (s : State) (i : Input)

/-- `rsp_ready_o`. -/
def rspReady : Bool := i.rstN && s.pending

/-- `consume`. -/
def consume : Bool := i.rspValid && rspReady s i

/-- `live`: the response belongs to the current path and fetch is running. -/
def live : Bool := consume s i && !i.stop && !s.redirectPending

/-- `to_buf`. -/
def toBuf : Bool := live s i && !i.redirect && !i.packetReady && i.rspFault = .ok

/-- `replay`: a refused fault is dropped and fetched again. -/
def replay : Bool := live s i && !i.redirect && !i.packetReady && i.rspFault ≠ .ok

/-- `offer`. -/
def offer : Bool :=
  !i.stop && i.packetReady && !s.bufValid &&
    (!s.pending || (consume s i && !s.redirectPending))

/-- `early_sel`. -/
def earlySel : Bool := i.early && !s.requestHeld

/-- `fast`: the target of an announced redirect is offered on its own edge. -/
def fast : Bool :=
  earlySel s i && i.earlyOk && i.redirect && !i.stop && (!s.pending || consume s i)

/-- `req_valid_o`. -/
def reqValid : Bool :=
  i.rstN && (s.requestHeld || (offer s i && !i.early) || fast s i)

/-- The second word of the response may be used: the condition `pair` and
`pair_next` share. -/
def pairWord : Bool :=
  cfg.fetchWidth = 2 && i.rspPair && i.rspFault = .ok && !s.pc.getLsbD 2

/-- `pair`. -/
def pair : Bool := live s i && !i.redirect && i.packetReady2 && pairWord cfg s i

/-- `pair_next`: `pair` with the room term that does not see a redirect. -/
def pairNext : Bool := live s i && i.packetRoom2 && pairWord cfg s i

/-- `next_addr`. -/
def nextAddr : BitVec 32 := if pairNext cfg s i then s.pcPlus8 else s.pcPlus4

/-- `req_addr_o`. -/
def reqAddr : BitVec 32 :=
  if earlySel s i then i.earlyTarget else if s.pending then nextAddr cfg s i else s.pc

/-- `accept`. -/
def accept : Bool := reqValid s i && i.reqReady

/-- `quiescent_o`. -/
def quiescent : Bool := !s.pending && !s.requestHeld && !reqValid s i

/-- `packet_valid_o`. -/
def packetValid : Bool := s.bufValid || live s i

/-- `packet_pair_o`. -/
def packetPair : Bool :=
  if s.bufValid then s.bufPair && i.packetReady2 else pair cfg s i

/-- The hints a word leaves with: none in a build without them. -/
def shownHints (h : BitVec 3) : BitVec 3 := if cfg.enableFetchHints then h else 0

/-- The response's own word, fetched from `pc`. -/
def rspWord (pc : BitVec 32) : Packet :=
  ⟨pc, i.rspInsn, i.rspFault, i.rspEsa, shownHints cfg i.rspHints⟩

/-- The second word of a pair, which follows the word at `pc`. -/
def rspWord1 (pc : BitVec 32) : Packet :=
  ⟨pc + 4, i.rspInsn1, .ok, i.rspEsa, shownHints cfg i.rspHints1⟩

/-- The word waiting in the buffer. -/
def bufWord : Packet := ⟨s.bufPc, s.bufInsn, .ok, s.bufEsa, shownHints cfg s.bufHints⟩

/-- The buffered pair's second word. -/
def bufWord1 : Packet :=
  ⟨s.bufPc + 4, s.bufInsn1, .ok, s.bufEsa, shownHints cfg s.bufHints1⟩

/-- `packet_o` and `packet_hints_o`. -/
def packet : Packet := if s.bufValid then bufWord cfg s else rspWord cfg i s.pc

/-- `packet_insn1_o` and its hints, as the word that follows `packet_o`. -/
def packet1 : Packet := if s.bufValid then bufWord1 cfg s else rspWord1 cfg i s.pc

/-- The words the queue takes on this edge, in program order. -/
def delivered : List Packet :=
  if packetValid s i && i.packetReady then
    packet cfg s i :: (if packetPair cfg s i then [packet1 cfg s i] else [])
  else []

/-! ## The clock edge -/

/-- `pending_d`. -/
def nextPending : Bool :=
  if fast s i then i.reqReady
  else if i.redirect then
    if reqValid s i then i.reqReady
    else if s.pending && !consume s i then s.pending
    else false
  else if accept s i then true
  else if consume s i then false
  else s.pending

/-- `request_held_d`. -/
def nextRequestHeld : Bool :=
  if fast s i then !i.reqReady
  else if i.redirect then
    if reqValid s i then !i.reqReady
    else if s.pending && !consume s i then s.requestHeld
    else false
  else if reqValid s i then !i.reqReady
  else s.requestHeld

/-- `redirect_pending_d`. -/
def nextRedirectPending : Bool :=
  if fast s i then false
  else if i.redirect then
    -- An old request held, first offered, or still outstanding is seen out.
    if reqValid s i then true
    else if s.pending && !consume s i then true
    else false
  else if consume s i && s.redirectPending then false
  else s.redirectPending

/-- `pc_d`. -/
def nextPc : BitVec 32 :=
  if fast s i then i.earlyTarget
  else if i.redirect then
    if reqValid s i then (if s.pending then s.pcPlus4 else s.pc)
    else if s.pending && !consume s i then s.pc
    else i.redirectTarget
  else if consume s i then
    if s.redirectPending then s.redirectTarget
    else if !replay s i then nextAddr cfg s i
    else s.pc
  else s.pc

/-- The next `pc_plus4` (`d` is 4) or `pc_plus8` (`d` is 8), from its old value. -/
def nextPcPlus (d old : BitVec 32) : BitVec 32 :=
  if fast s i then i.earlyTarget + d
  else if !s.pending then s.pc + d
  else if consume s i && !replay s i then nextAddr cfg s i + d
  else old

/-- The buffer's last word leaves, or a redirect discards what it holds. -/
def bufClears : Bool :=
  i.redirect || (s.bufValid && i.packetReady && !(s.bufPair && !i.packetReady2))

/-- The next `buf_valid`. -/
def nextBufValid : Bool :=
  if toBuf s i then true else if bufClears s i then false else s.bufValid

/-- A buffered word moves up or leaves. -/
def bufAdvances : Bool := s.bufValid && i.packetReady

/-- The next `stop_skipped`. -/
def nextStopSkipped : Bool :=
  if i.redirect then false
  else if consume s i && !s.redirectPending && i.stop then true
  else s.stopSkipped

/-- The registers after an edge in reset; the buffer's contents are not reset. -/
def resetState : State :=
  { s with
    pending := false
    requestHeld := false
    redirectPending := false
    bufValid := false
    pc := cfg.resetPc
    pcPlus4 := cfg.resetPc + 4
    pcPlus8 := cfg.resetPc + 8
    redirectTarget := cfg.resetPc
    stopSkipped := false }

/-- The registers after an edge out of reset. -/
def runState : State where
  pending := nextPending s i
  requestHeld := nextRequestHeld s i
  redirectPending := nextRedirectPending s i
  pc := nextPc cfg s i
  pcPlus4 := nextPcPlus cfg s i 4 s.pcPlus4
  pcPlus8 := nextPcPlus cfg s i 8 s.pcPlus8
  redirectTarget := if i.redirect then i.redirectTarget else s.redirectTarget
  bufValid := nextBufValid s i
  bufPair :=
    if toBuf s i then pairNext cfg s i else if bufAdvances s i then false else s.bufPair
  bufPc :=
    if toBuf s i then s.pc else if bufAdvances s i then s.bufPc + 4 else s.bufPc
  bufInsn :=
    if toBuf s i then i.rspInsn else if bufAdvances s i then s.bufInsn1 else s.bufInsn
  bufInsn1 := if toBuf s i then i.rspInsn1 else s.bufInsn1
  bufEsa := if toBuf s i then i.rspEsa else s.bufEsa
  bufHints :=
    if toBuf s i then i.rspHints
    else if bufAdvances s i then (if cfg.fetchWidth = 2 then s.bufHints1 else 0)
    else s.bufHints
  bufHints1 := if toBuf s i then i.rspHints1 else s.bufHints1
  stopSkipped := nextStopSkipped s i

/-- One clock edge of the module. -/
def step : State := if i.rstN then runState cfg s i else resetState cfg s

end Signals

/-! ## The module and the responder's obligation -/

/-- The module's registers and the request the responder owes an answer to. -/
structure System where
  fetch : State
  owed : Option (BitVec 32)

/-- The obligation after an edge: an accepted request starts one, a consumed
response ends one, and a reset forgets it. -/
def nextOwed (cfg : Config) (y : System) (i : Input) : Option (BitVec 32) :=
  if !i.rstN then none
  else if accept y.fetch i then some (reqAddr cfg y.fetch i)
  else if consume y.fetch i then none
  else y.owed

/-- The fetch unit as a clocked machine, started by an edge in reset. -/
def machine (cfg : Config) : Clocked.Machine System Input where
  Initial := fun y => ∃ s₀, y = ⟨resetState cfg s₀, none⟩
  step := fun y i => ⟨step cfg y.fetch i, nextOwed cfg y i⟩

end Fetch
end SloPPC603
