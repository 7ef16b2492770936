import SloPPC603.Bus.Pins

/-!
# The data cache's bus master

The registers and clock edge of `ppc_bus60x_cache_master.sv`, the 60x master for the
data cache: burst and single-beat reads and writes, address-only operations and snoop
pushes.

* `planSingle` — the one or two transfers of a single-beat access.
* `loadTenure`, `finish` — the two tasks of the source.
* `step`, `machine` — the clock edge.
-/

namespace SloPPC603
namespace Bus
namespace CacheMaster

/-! ## Requests -/

/-- `K_READ_BURST`. -/
def kReadBurst : BitVec 3 := 0
/-- `K_READ_SINGLE`. -/
def kReadSingle : BitVec 3 := 1
/-- `K_WRITE_BURST`. -/
def kWriteBurst : BitVec 3 := 2
/-- `K_WRITE_SINGLE`. -/
def kWriteSingle : BitVec 3 := 3
/-- `K_ADDR_ONLY`. -/
def kAddrOnly : BitVec 3 := 4
/-- `TT_WRITE_KILL`. -/
def ttWriteKill : BitVec 5 := 0b00110
/-- `TSIZ_BURST`. -/
def tsizBurst : BitVec 3 := 0b010

/-- `single_plan_t`: one transfer, or two split at the word boundary. -/
structure SinglePlan where
  ok : Bool
  split : Bool
  off0 : BitVec 3
  siz0 : BitVec 3
  siz1 : BitVec 3

/-- `tsiz_of`. -/
def tsizOf (count : ℕ) : BitVec 3 := if count = 4 then 0b100 else BitVec.ofNat 3 count

/-- `plan_single`. -/
def planSingle (be : BitVec 8) : SinglePlan :=
  let first := ((List.range 8).find? fun i => be.getLsbD (7 - i)).getD 8
  let last := ((List.range 8).reverse.find? fun i => be.getLsbD (7 - i)).getD 0
  let run := (List.range 8).all fun i => be.getLsbD (7 - i) = (first ≤ i ∧ i ≤ last)
  let split := be ≠ 0xff && first < 4 && 4 ≤ last
  { ok := be ≠ 0 && run
    split := split
    off0 := BitVec.ofNat 3 first
    siz0 :=
      if be = 0xff then 0
      else if split then tsizOf (4 - first) else tsizOf (last - first + 1)
    siz1 := if split then tsizOf (last - 3) else 0 }

/-! ## Registers -/

/-- `state_t`. -/
inductive Phase where
  | idle | addrRequest | addrTransfer | addrWait | addrRetrySample | addrAbort | retryGap
  | dataRequest | readWait | readConfirm | readReplace | writeBeat | dataRelease | finish
  deriving DecidableEq

/-- The inputs of one cycle. -/
structure Input where
  rstN : Bool := true
  busCe : Bool := false
  reqValid : Bool := false
  reqKind : BitVec 3 := 0
  reqTt : BitVec 5 := 0
  reqAddr : BitVec 32 := 0
  reqBe : BitVec 8 := 0
  reqWimg : BitVec 4 := 0
  reqGbl : Bool := false
  reqCse : BitVec 2 := 0
  reqData : BitVec 256 := 0
  pushValid : Bool := false
  pushAddr : BitVec 32 := 0
  pushData : BitVec 256 := 0
  pushHold : Bool := false
  pins : MasterIn := {}
  d : BitVec 64 := 0

/-- The registers. -/
structure State where
  state : Phase
  rqValid : Bool
  rqKind : BitVec 3
  rqTt : BitVec 5
  rqAddr : BitVec 32
  rqWimg : BitVec 4
  rqGbl : Bool
  rqCse : BitVec 2
  rqData : BitVec 256
  rqPlan : SinglePlan
  rqPart : Bool
  rqMerge : BitVec 64
  puValid : Bool
  puAddr : BitVec 32
  puData : BitVec 256
  actPush : Bool
  curA : BitVec 32
  curTt : BitVec 5
  curTbstN : Bool
  curTsiz : BitVec 3
  curCiN : Bool
  curWtN : Bool
  curGblN : Bool
  curCse : BitVec 2
  beat : BitVec 2
  lastBeat : BitVec 2
  err : Bool
  provisional : BitVec 64
  addrReleasePending : Bool
  dataReleasePending : Bool
  finalReleaseStarted : Bool
  releaseOeCycle : Bool
  rdValid : Bool
  rdError : Bool
  rdData : BitVec 64
  fin : BitVec 64
  wrDone : Bool
  wrError : Bool
  pushDone : Bool
  pushError : Bool
  protocolError : Bool
  reqAcked : Bool
  idle : Bool
  slow : Bool

/-- The registers after an edge with `rst_ni` low; the data of the two slots, the
captured beats and `slow_q` have no reset. -/
def reset (s : State) : State :=
  { s with
    state := .idle
    rqValid := false, rqKind := kReadBurst, rqTt := 0, rqAddr := 0, rqWimg := 0
    rqGbl := false, rqCse := 0, rqPlan := ⟨false, false, 0, 0, 0⟩, rqPart := false
    puValid := false, actPush := false
    curA := 0, curTt := 0, curTbstN := true, curTsiz := 0
    curCiN := true, curWtN := true, curGblN := true, curCse := 0
    beat := 0, lastBeat := 0, err := false
    addrReleasePending := false, dataReleasePending := false
    finalReleaseStarted := false, releaseOeCycle := false
    rdValid := false, rdError := false, rdData := 0
    wrDone := false, wrError := false, pushDone := false, pushError := false
    protocolError := false, reqAcked := false
    idle := true }

section Signals

variable (s : State) (i : Input)

/-- `cur_read`. -/
def curRead : Bool := !s.actPush && (s.rqKind = kReadBurst || s.rqKind = kReadSingle)

/-- `cur_write`. -/
def curWrite : Bool := s.actPush || s.rqKind = kWriteBurst || s.rqKind = kWriteSingle

/-- `cur_addr_only`. -/
def curAddrOnly : Bool := !s.actPush && s.rqKind = kAddrOnly

/-- `cur_single`. -/
def curSingle : Bool := !s.actPush && (s.rqKind = kReadSingle || s.rqKind = kWriteSingle)

/-- `start_push`. -/
def startPush : Bool := s.state = .idle && s.puValid

/-- `start_req`. -/
def startReq : Bool := s.state = .idle && !s.puValid && !i.pushHold && s.rqValid

/-- `bad_req`. -/
def badReq : Bool :=
  kAddrOnly < s.rqKind ||
    ((s.rqKind = kReadSingle || s.rqKind = kWriteSingle) && !s.rqPlan.ok)

/-! ## Outputs -/

/-- `req_ready_o`. -/
def reqReady : Bool :=
  i.rstN && i.busCe && (s.idle || !s.slow) && s.state = .idle && !s.rqValid && !s.puValid &&
    !i.pushValid && !i.pushHold

/-- `push_ready_o`. -/
def pushReady : Bool := i.rstN && i.busCe && !s.puValid

/-- `push_accept_o`. -/
def pushAccept : Bool := i.pushValid && pushReady s i

/-- `push_wait_o`: an accepted push has not yet started its address tenure. -/
def pushWait : Bool := s.puValid && (s.state = .idle || !s.actPush)

/-- `rd_valid_o`. -/
def rdValidOut : Bool := s.rdValid && i.busCe

/-- `wr_done_o`. -/
def wrDoneOut : Bool := s.wrDone && i.busCe

/-- `push_done_o`. -/
def pushDoneOut : Bool := s.pushDone && i.busCe

/-- `busy_o`. -/
def busy : Bool := i.rstN && (s.state ≠ .idle || s.rqValid || s.puValid)

/-- `protocol_error_o`. -/
def protocolErrorOut : Bool := i.rstN && s.protocolError

/-- The master owns the address pins. -/
def addrOwned : Bool :=
  i.rstN && (s.state = .addrTransfer || s.state = .addrWait || s.state = .addrRetrySample ||
    s.state = .addrAbort)

/-- Beat `beat` of a line. -/
def lineBeat (data : BitVec 256) (beat : BitVec 2) : BitVec 64 :=
  data.extractLsb' (192 - 64 * beat.toNat) 64

/-- The pins the master drives. -/
def out : MasterOut where
  brN := !(i.rstN && s.state = .addrRequest)
  abbN := i.rstN && s.addrReleasePending
  abbOe := addrOwned s i
  tsN := s.state ≠ .addrTransfer
  tsOe := addrOwned s i
  a := s.curA
  tt := s.curTt
  tbstN := s.curTbstN
  tsiz := s.curTsiz
  tc := 0
  ciN := s.curCiN
  wtN := s.curWtN
  gblN := s.curGblN
  cse := s.curCse
  addrOe := addrOwned s i
  dbbN := i.rstN && s.dataReleasePending
  dbbOe := i.rstN &&
    (s.state = .readWait || s.state = .writeBeat || s.state = .dataRelease ||
      ((s.state = .readConfirm || s.state = .readReplace) &&
        (!s.finalReleaseStarted || s.releaseOeCycle)))
  d :=
    if s.actPush then lineBeat s.puData s.beat
    else if s.rqKind = kWriteBurst then lineBeat s.rqData s.beat
    else s.rqData.setWidth 64
  dOe := i.rstN && s.state = .writeBeat

/-! ## The clock edge -/

/-- `load_tenure`: the address-phase pins of the next tenure, put into `b`. -/
def loadTenure (push part : Bool) (b : State) : State :=
  if push then
    { b with
      actPush := true, beat := 0
      curA := s.puAddr &&& ~~~31
      curTt := ttWriteKill, curTbstN := false, curTsiz := tsizBurst
      curCiN := true, curWtN := true, curGblN := true, curCse := 0
      lastBeat := 3 }
  else
    let burst := s.rqKind = kReadBurst || s.rqKind = kWriteBurst
    let single := !burst && s.rqKind ≠ kAddrOnly
    let off := if part then 4 else s.rqPlan.off0
    { b with
      actPush := false, beat := 0
      curTt := s.rqTt
      curCiN := !s.rqWimg.getLsbD 2, curWtN := !s.rqWimg.getLsbD 3
      curGblN := !s.rqGbl, curCse := s.rqCse
      curTbstN := !burst
      curTsiz :=
        if burst then tsizBurst
        else if single then (if part then s.rqPlan.siz1 else s.rqPlan.siz0) else 0
      lastBeat := if burst then 3 else 0
      curA :=
        if s.rqKind = kReadBurst then s.rqAddr &&& ~~~7
        else if single then (s.rqAddr &&& ~~~7) ||| off.setWidth 32
        else s.rqAddr &&& ~~~31 }

/-- `finish`: ends the current tenure; a split single continues with its second part. -/
def finish (error : Bool) (b : State) : State :=
  if s.actPush then { b with puValid := false, pushDone := true, pushError := error }
  else if curSingle s && s.rqPlan.split && !s.rqPart && !error then { b with rqPart := true }
  else if curRead s then
    if error || s.rqKind = kReadSingle then
      { b with rqValid := false, rdValid := true, rdError := error
               rdData := if error then 0 else s.fin }
    else { b with rqValid := false }
  else { b with rqValid := false, wrDone := true, wrError := error }

/-- The slots after this edge's offers, and the pulses back to low. -/
def taken : State :=
  let b := { s with
    rdValid := false, rdError := false, wrDone := false, wrError := false
    pushDone := false, pushError := false }
  let b :=
    if i.reqValid && reqReady s i then
      { b with
        rqValid := true, rqKind := i.reqKind, rqTt := i.reqTt, rqAddr := i.reqAddr
        rqWimg := i.reqWimg, rqGbl := i.reqGbl, rqCse := i.reqCse, rqData := i.reqData
        rqPlan := planSingle i.reqBe, rqPart := false, reqAcked := false }
    else b
  if pushAccept s i then
    { b with puValid := true, puAddr := i.pushAddr, puData := i.pushData }
  else b

/-- A standing beat of a read. -/
def confirmBeat (b : State) : State :=
  if s.rqKind = kReadBurst then { b with rdValid := true, rdData := s.provisional }
  else if s.rqPlan.split && !s.rqPart then { b with rqMerge := s.provisional }
  else if s.rqPlan.split then
    { b with fin := s.rqMerge.extractLsb' 32 32 ++ s.provisional.extractLsb' 0 32 }
  else { b with fin := s.provisional }

/-- The state machine on a bus edge. -/
def edge : State :=
  let b := taken s i
  let p := i.pins
  match s.state with
  | .idle =>
    let b := { b with
      addrReleasePending := false, dataReleasePending := false
      finalReleaseStarted := false, releaseOeCycle := false, err := false }
    if startPush s then { loadTenure s true false b with state := .addrRequest }
    else if startReq s i then
      if badReq s then
        { b with actPush := false, protocolError := true, state := .finish, err := true }
      else { loadTenure s false s.rqPart b with state := .addrRequest }
    else b
  | .addrRequest => if p.granted then { b with state := .addrTransfer } else b
  | .addrTransfer =>
    if !p.aackN then
      { b with addrReleasePending := true, protocolError := true, state := .addrAbort }
    else { b with addrReleasePending := false, state := .addrWait }
  | .addrWait =>
    if !p.aackN then { b with addrReleasePending := true, state := .addrRetrySample } else b
  | .addrRetrySample =>
    let b := { b with
      addrReleasePending := false, reqAcked := if s.actPush then b.reqAcked else p.artryN }
    if !p.artryN then { b with state := .retryGap }
    else if curAddrOnly s then { b with state := .finish }
    else { b with state := .dataRequest }
  | .addrAbort => { b with addrReleasePending := false, err := true, state := .finish }
  | .retryGap => { b with state := .idle }
  | .dataRequest =>
    if p.dataGranted then { b with state := if curWrite s then .writeBeat else .readWait }
    else b
  | .writeBeat =>
    if !p.teaN then { b with err := true, dataReleasePending := true, state := .dataRelease }
    else if !p.taN then
      if s.beat = s.lastBeat then { b with dataReleasePending := true, state := .dataRelease }
      else { b with beat := s.beat + 1 }
    else b
  | .dataRelease => { b with dataReleasePending := false, state := .finish }
  | .readWait =>
    let b := { b with releaseOeCycle := false }
    if !p.teaN || !p.drtryN then
      { b with
        protocolError := b.protocolError || p.teaN
        err := true, dataReleasePending := true, state := .dataRelease }
    else if !p.taN then
      if s.beat = s.lastBeat then
        { b with
          finalReleaseStarted := true, releaseOeCycle := true, dataReleasePending := true
          state := .readConfirm }
      else { b with state := .readConfirm }
    else b
  | .readConfirm =>
    let b := { b with dataReleasePending := false, releaseOeCycle := false }
    if !p.teaN then
      if s.finalReleaseStarted then { b with err := true, state := .finish }
      else { b with err := true, dataReleasePending := true, state := .dataRelease }
    else if !p.drtryN then
      { b with state := if !p.taN then .readConfirm else .readReplace }
    else
      let b := confirmBeat s b
      if s.beat = s.lastBeat then { b with state := .finish }
      else
        let b := { b with beat := s.beat + 1 }
        if !p.taN then
          if s.beat + 1 = s.lastBeat then
            { b with
              finalReleaseStarted := true, releaseOeCycle := true, dataReleasePending := true
              state := .readConfirm }
          else { b with state := .readConfirm }
        else { b with state := .readWait }
  | .readReplace =>
    let b := { b with releaseOeCycle := false }
    if !p.teaN || p.drtryN then
      let b := { b with protocolError := b.protocolError || p.teaN, err := true }
      if s.finalReleaseStarted then { b with state := .finish }
      else { b with dataReleasePending := true, state := .dataRelease }
    else if !p.taN then { b with state := .readConfirm }
    else b
  | .finish => { finish s s.err { b with dataReleasePending := false } with state := .idle }

/-- The clock edge. -/
def step : State :=
  let provisional := if i.busCe && !i.pins.taN then i.d else s.provisional
  let slow := s.slow || !i.busCe
  if !i.rstN then { reset s with provisional := provisional, slow := slow }
  else if i.busCe then
    { edge s i with
      provisional := provisional, slow := slow
      idle := s.state = .idle && !s.rqValid && !s.puValid }
  else { s with slow := slow }

end Signals

/-- The machine: it starts from a reset. -/
def machine : Clocked.Machine State Input where
  Initial s := ∃ s₀, s = reset s₀
  step := step

end CacheMaster
end Bus
end SloPPC603
