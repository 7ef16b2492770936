import SloPPC603.Clocked.Machine

/-!
# The 602 bus bridge

The registers and the clock edge of `ppc602_bus.sv`: the master tenures of the core, two of
them queued, become transactions on the multiplexed bus of the 602, and the address tenures of
other masters reach the snooper of the core.

* `Entry`, `State`, `Input` — the registers and the pins.
* `snoopEdge`, `pinEdge`, `queueEdge` — the parts of the clock edge.
* `step`, `machine` — the clock edge and its runs.
-/

namespace SloPPC603
namespace Bus602

open Clocked

/-! ## Registers -/

/-- `TT_KILL`. -/
def ttKill : BitVec 5 := 0b01100

/-- `TT_WRITE_KILL`. -/
def ttWriteKill : BitVec 5 := 0b00110

/-- `TC_INSTRUCTION`. -/
def tcInstruction : BitVec 2 := 0b10

/-- `TC_COPYBACK_FILL`. -/
def tcCopybackFill : BitVec 2 := 0b01

/-- `SNOOP_BR_CYCLES`. -/
def snoopBrCycles : ℕ := 15

/-- `entry_t`. -/
structure Entry where
  addr : BitVec 32
  tt : BitVec 5
  burst : Bool
  tsiz : BitVec 3
  instruction : Bool
  ciN : Bool
  wtN : Bool
  gblN : Bool
  write : Bool
  addrOnly : Bool
  deriving DecidableEq

/-- `pin_state_e`. -/
inductive PinState where
  | idle | addr | data | gap
  deriving DecidableEq

/-- The inputs of one cycle. -/
structure Input where
  rstN : Bool := true
  cTsN : Bool := true
  cTsOe : Bool := false
  cA : BitVec 32 := 0
  cTt : BitVec 5 := 0
  cTbstN : Bool := true
  cTsiz : BitVec 3 := 0
  cTc : BitVec 2 := 0
  cCiN : Bool := true
  cWtN : Bool := true
  cGblN : Bool := true
  cDbbN : Bool := true
  cDbbOe : Bool := false
  cD : BitVec 64 := 0
  cDOe : Bool := false
  cArtryN : Bool := true
  cArtryOe : Bool := false
  bgN : Bool := true
  tsN : Bool := true
  bbN : Bool := true
  d : BitVec 64 := 0
  aackN : Bool := true
  artryN : Bool := true
  t32N : Bool := true
  taN : Bool := true
  teaN : Bool := true

/-- The registers. -/
structure State where
  q0 : Entry
  q1 : Entry
  count : ℕ
  headCoreDone : Bool
  headPinDone : Bool
  ownAack : Bool
  buf : ℕ → BitVec 64
  cap : ℕ
  avail : ℕ
  rd : ℕ
  readError : Bool
  extOpen : Bool
  afterAack : Bool
  snoopTs : Bool
  snoopGbl : Bool
  snoopA : BitVec 32
  snoopTt : BitVec 5
  extAack : Bool
  bridgeArtry : Bool
  artryRel : Bool
  snoopBr : ℕ
  inj : Bool
  injAack : Bool
  injAfter : Bool
  injProbe : Bool
  state : PinState
  ownTs : Bool
  addrWord : BitVec 64
  t32 : Bool
  tsFirst : Bool
  first : Bool
  gap : Bool
  retried : Bool
  bbDrive : Bool
  beat : ℕ
  beats : ℕ
  be : BitVec 8
  wait : ℕ
  writeError : Bool

/-- The registers after an edge with `rst_ni` low; those it leaves have no reset. -/
def reset (s : State) : State :=
  { s with
    count := 0, headCoreDone := false, headPinDone := false, ownAack := false
    cap := 0, avail := 0, rd := 0, readError := false
    extOpen := false, afterAack := false, snoopTs := false, extAack := false
    bridgeArtry := false, artryRel := false, snoopBr := 0
    inj := false, injAack := false, injAfter := false
    state := .idle, ownTs := false, tsFirst := false, first := false, gap := false
    retried := false, bbDrive := false, wait := 0, writeError := false }

/-- `lanes`: the byte lanes of a single beat, the first byte in lane 7; TSIZ 0 is eight. -/
def lanes (tsiz a : BitVec 3) : BitVec 8 :=
  let n := if tsiz = 0 then 8 else tsiz.toNat
  (BitVec.ofBoolListBE ((List.range 8).map fun i => decide (a.toNat ≤ i ∧ i < a.toNat + n))).setWidth 8

section Signals

variable (s : State) (i : Input)

/-! ## The queue -/

/-- `c_ts`. -/
def cTs : Bool := !i.cTsN && i.cTsOe

/-- `c_entry`: a cacheable read is a read with intent to modify. -/
def cEntry : Entry :=
  let burst := !i.cTbstN
  let addrOnly := !i.cTt.getLsbD 1 && i.cTt ≠ 0b10100 && i.cTt ≠ 0b11100
  { addr := i.cA
    burst
    tsiz := i.cTsiz
    instruction := i.cTc = tcInstruction
    ciN := i.cCiN
    wtN := i.cWtN
    gblN := i.cGblN
    addrOnly
    write := !i.cTt.getLsbD 3
    tt := if burst && i.cTt.getLsbD 3 && !addrOnly then i.cTt ||| 0b00100 else i.cTt }

/-- `absorb`: an address-only tenure that is not broadcast. -/
def absorb : Bool := (cEntry i).addrOnly && i.cTt ≠ ttKill

/-- `enq`. -/
def enq : Bool := cTs i && !absorb i

/-- `pop`. -/
def pop : Bool := s.count ≠ 0 && s.headCoreDone && s.headPinDone

/-- `core_beats`. -/
def coreBeats : ℕ := if s.q0.burst then 4 else 1

/-! ## Snoops -/

/-- `ext_ts`. -/
def extTs : Bool := !i.tsN && !s.ownTs

/-- `ext_start`: another master's address tenure starts. -/
def extStart : Bool := extTs s i && !s.extOpen

/-- `ext_aack`. -/
def extAackNow : Bool := (!i.aackN || s.injAack) && (s.extOpen || extStart s i)

/-- The entry is a write the bus has not taken, of the line on the bus. -/
def Entry.hit (e : Entry) (d : BitVec 64) : Bool :=
  e.write && !e.addrOnly && e.addr.extractLsb' 5 27 = d.extractLsb' 37 27

/-- `queue_hit`. -/
def queueHit : Bool :=
  (decide (0 < s.count) && !s.headPinDone && s.q0.hit i.d) || (decide (1 < s.count) && s.q1.hit i.d)

/-- `snoop_collide`. -/
def snoopCollide : Bool := s.snoopTs && i.cTsOe

/-- `core_artry`. -/
def coreArtry : Bool := i.cArtryOe && !i.cArtryN

/-- `artry_assert`. -/
def artryAssert : Bool := (coreArtry i || s.bridgeArtry) && (s.extOpen || s.afterAack)

/-- `artry_n_o`. -/
def artryNOut : Bool := !artryAssert s i

/-- `artry_oe_o`. -/
def artryOeOut : Bool := artryAssert s i || s.artryRel

/-- `c_snoop_ts_n_o`. -/
def cSnoopTsN : Bool := !(s.snoopTs && !i.cTsOe)

/-- `c_snoop_probe_o`. -/
def cSnoopProbe : Bool := s.inj && s.injProbe

/-- `c_block`. -/
def cBlock : Bool := extTs s i || s.extOpen || s.snoopTs || s.extAack

/-- `c_bg_n_o`. -/
def cBgN : Bool := !(decide (s.count + (enq i).toNat ≤ 1) && !cBlock s i)

/-- `c_aack_n_o`. -/
def cAackN : Bool := !(s.ownAack || s.extAack)

/-! ## The data tenures of the core -/

/-- `c_has_data`. -/
def cHasData : Bool := s.count ≠ 0 && !s.q0.addrOnly && !s.headCoreDone

/-- `c_dbg_n_o`. -/
def cDbgN : Bool := !cHasData s

/-- `c_write_beat`. -/
def cWriteBeat : Bool := cHasData s && s.q0.write && i.cDOe

/-- The core is in a data tenure of a read. -/
def cReading : Bool := cHasData s && !s.q0.write && i.cDbbOe && !i.cDbbN && !i.cDOe

/-- `c_read_beat`. -/
def cReadBeat : Bool := cReading s i && decide (s.rd < s.avail)

/-- `c_tea`. -/
def cTea : Bool := cReading s i && s.readError && s.rd = s.avail

/-- `c_ta_n_o`. -/
def cTaN : Bool := !(cWriteBeat s i || cReadBeat s i)

/-- `c_tea_n_o`. -/
def cTeaN : Bool := !cTea s i

/-- `c_d_o`. -/
def cDOut : BitVec 64 := s.buf s.rd

/-! ## The bus master -/

/-- `head_be`. -/
def headBe : BitVec 8 := lanes s.q0.tsiz (s.q0.addr.extractLsb' 0 3)

/-- A castout: a burst that writes with kill. -/
def castout : Bool := s.q0.write && s.q0.burst && s.q0.tt = ttWriteKill

/-- `castout_wait`; `w` is `PFADDR_WAIT`. -/
def castoutWait (w : ℕ) : Bool :=
  castout s && s.count = 1 && decide (s.wait < w % 16) && s.snoopBr = 0

/-- `head_ready`. -/
def headReady (w : ℕ) : Bool :=
  s.count ≠ 0 && !s.headPinDone && (!s.q0.write || s.q0.addrOnly || s.headCoreDone) &&
    !castoutWait s w

/-- `pf_valid`. -/
def pfValid : Bool :=
  castout s && s.count = 2 && !s.q1.write && s.q1.burst &&
    s.q1.addr.extractLsb' 5 6 = s.q0.addr.extractLsb' 5 6

/-- `want_bus`. -/
def wantBus (w : ℕ) : Bool := s.state = .idle && !s.gap && headReady s w

/-- `inject`. -/
def inject : Bool := s.state = .data && !s.first && s.q0.burst && !s.q0.write

/-- `qual_bg`. -/
def qualBg : Bool := !i.bgN && i.bbN && i.tsN && i.artryN

/-- `addr_word`. -/
def addrWordNow : BitVec 64 :=
  s.q0.addr ++
    (if pfValid s then s.q1.addr.extractLsb' 11 21
      else (0#8 ++ (if s.q0.burst then 0#8 else headBe s) ++ 0#2 ++ s.q0.tsiz : BitVec 21)) ++
    BitVec.ofBool (!s.q0.burst) ++ s.q0.tt ++ BitVec.ofBool s.q0.gblN ++ BitVec.ofBool s.q0.ciN ++
    BitVec.ofBool s.q0.wtN ++
    (if pfValid s then tcCopybackFill
      else if !s.q0.write && s.q0.instruction then tcInstruction else 0b00)

/-- `hi_used`. -/
def hiUsed : Bool := s.be.extractLsb' 4 4 ≠ 0

/-- `lo_used`. -/
def loUsed : Bool := s.be.extractLsb' 0 4 ≠ 0

/-- `dw`. -/
def dw : ℕ := if !s.t32 then s.beat % 4 else if s.q0.burst then s.beat / 2 % 4 else 0

/-- `half_lo`. -/
def halfLo : Bool :=
  if !s.t32 then false
  else if s.q0.burst then decide (s.beat % 2 = 1)
  else !hiUsed s || decide (s.beat % 2 = 1)

/-- `beat_last`. -/
def beatLast : Bool := (s.beat + 1) % 16 = s.beats

/-- `beats_q` of a data phase, by T32. -/
def beatsOf (t32 : Bool) : ℕ :=
  if s.q0.addrOnly then 0
  else if s.q0.burst then if t32 then 8 else 4
  else if t32 then (hiUsed s).toNat + (loUsed s).toNat else 1

/-- What a beat of a read leaves in the line buffer. -/
def readBuf : BitVec 64 :=
  if !s.t32 then i.d
  else if !halfLo s then i.d.extractLsb' 32 32 ++ (s.buf (dw s)).extractLsb' 0 32
  else (s.buf (dw s)).extractLsb' 32 32 ++ i.d.extractLsb' 32 32

/-- A beat of a read ends a doubleword. -/
def readWhole : Bool := !s.t32 || halfLo s || (!s.q0.burst && !loUsed s)

/-- `ts_n_o`. -/
def tsNOut : Bool := !(s.state = .addr : Bool)

/-- `ts_oe_o`. -/
def tsOeOut : Bool := s.state = .addr || (s.state = .data && s.first) || (s.state = .gap && s.ownTs)

/-- `br_n_o`. -/
def brNOut (w : ℕ) : Bool :=
  !(wantBus s w || (s.state = .idle && s.snoopBr ≠ 0 && s.count = 0))

/-- `bb_n_o`. -/
def bbNOut : Bool := !(s.state = .data && s.bbDrive)

/-- `d_oe_o`. -/
def dOeOut : Bool := s.state = .addr || (s.state = .data && s.q0.write && !s.q0.addrOnly)

/-- `d_o`. -/
def dOut : BitVec 64 :=
  let wdata := s.buf (dw s)
  if s.state = .addr then s.addrWord
  else if s.t32 then
    (if halfLo s then wdata.extractLsb' 0 32 else wdata.extractLsb' 32 32) ++ wdata.extractLsb' 0 32
  else wdata

/-! ## The clock edge -/

/-- What a snoop is of, put into `b`; the reset leaves it. -/
def snoopTaken (b : State) : State :=
  let start := extStart s i
  { b with
    snoopA := if start then i.d.extractLsb' 32 32 else b.snoopA
    snoopTt := if start then i.d.extractLsb' 5 5 else b.snoopTt
    snoopGbl := if start then i.d.getLsbD 4 else b.snoopGbl
    injProbe :=
      if start then i.d.extractLsb' 5 5 ≠ ttKill && i.d.extractLsb' 5 5 ≠ ttWriteKill else b.injProbe }

/-- The registers of the snoop side, put into `b`. -/
def snoopEdge (b : State) : State :=
  let b := snoopTaken s i b
  let start := extStart s i
  { b with
    extOpen := if start then i.aackN else s.extOpen && !extAackNow s i
    inj := start && inject s
    injAack := s.inj
    injAfter := s.injAack
    afterAack := extAackNow s i
    snoopTs := start
    extAack := extAackNow s i
    bridgeArtry :=
      if s.afterAack then false
      else if (start && !i.d.getLsbD 4 && queueHit s i) || (snoopCollide s i && !s.snoopGbl) then true
      else s.bridgeArtry
    artryRel := artryAssert s i && s.afterAack
    snoopBr :=
      if artryAssert s i && s.afterAack && coreArtry i && !s.injAfter then snoopBrCycles
      else s.snoopBr - 1 }

/-- The beats of the core, put into `b`. -/
def coreEdge (b : State) : State :=
  { b with
    cap := if cWriteBeat s i then (s.cap + 1) % 4 else b.cap
    rd := if cReadBeat s i then (s.rd + 1) % 4 else b.rd
    headCoreDone :=
      (cWriteBeat s i && s.cap + 1 = coreBeats s) || (cReadBeat s i && s.rd + 1 = coreBeats s) ||
        cTea s i || b.headCoreDone }

/-- The end of a data phase. -/
def pinDone (b : State) : State := { b with state := .gap, headPinDone := true }

/-- The state machine of the bus, put into `b`. -/
def pinEdge (w : ℕ) (b : State) : State :=
  match s.state with
  | .idle =>
    let b := { b with bbDrive := false }
    if wantBus s w && qualBg i then
      { b with
        state := .addr, ownTs := true, tsFirst := true, addrWord := addrWordNow s
        be := if s.q0.burst then 0xff else headBe s }
    else b
  | .addr =>
    let b := { b with tsFirst := false }
    if !i.artryN && !s.tsFirst then { b with state := .gap, retried := true }
    else if !i.aackN then
      { b with
        state := .data, t32 := !i.t32N, first := true, beat := 0, avail := 0, rd := 0
        readError := false, beats := beatsOf s (!i.t32N), bbDrive := !s.q0.addrOnly }
    else b
  | .data =>
    let b := { b with ownTs := false, first := false }
    if s.first && !i.artryN then { b with state := .gap, retried := true }
    else if s.q0.addrOnly then pinDone b
    else if !i.teaN then
      if s.q0.write then { pinDone b with writeError := true } else { pinDone b with readError := true }
    else if !i.taN then
      let b := { b with beat := (s.beat + 1) % 16 }
      let b :=
        if !s.q0.write then
          { b with
            buf := Function.update b.buf (dw s) (readBuf s i)
            avail := if readWhole s then (s.avail + 1) % 8 else b.avail }
        else b
      if beatLast s then pinDone b else b
    else b
  | .gap =>
    { b with
      ownTs := false, first := false, bbDrive := false, gap := s.retried, retried := false
      state := .idle }

/-- The head leaves the queue and a tenure of the core is appended, put into `b`. -/
def queueEdge (b : State) : State :=
  let b :=
    if pop s then
      { b with
        q0 := s.q1, headCoreDone := false, headPinDone := false, cap := 0, wait := 0, avail := 0
        rd := 0, readError := false }
    else b
  let slot := if pop s then s.count - 1 else s.count
  let b :=
    if enq i then if slot = 0 then { b with q0 := cEntry i } else { b with q1 := cEntry i } else b
  { b with
    count := (s.count + (enq i).toNat + 4 - (pop s).toNat) % 4
    headCoreDone :=
      (!pop s && s.count ≠ 0 && s.q0.addrOnly) || (pop s && s.count = 2 && s.q1.addrOnly) ||
        b.headCoreDone }

/-- The registers after an edge, but for the queue. -/
def workEdge (w : ℕ) : State :=
  let b := snoopEdge s i s
  let b :=
    { b with
      ownAack := cTs i, writeError := false, gap := false
      wait := if castoutWait s w && s.headCoreDone then (s.wait + 1) % 16 else s.wait }
  let b := pinEdge s i w (coreEdge s i b)
  { b with buf := if cWriteBeat s i then Function.update b.buf s.cap i.cD else b.buf }

/-- The registers after an edge. -/
def edge (w : ℕ) : State := queueEdge s i (workEdge s i w)

/-- The registers after an edge, with the reset. -/
def step (w : ℕ) : State := if i.rstN then edge s i w else reset (snoopTaken s i s)

end Signals

/-- The bridge; `w` is `PFADDR_WAIT`. -/
def machine (w : ℕ) : Machine State Input where
  Initial s := ∃ s₀, s = reset s₀
  step s i := step s i w

end Bus602
end SloPPC603
