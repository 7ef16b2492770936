import SloPPC603.Router.Reply

/-!
# The translating router

The registers, combinational signals and clock edge of `ppc_bat_memory_router.sv`:
an instruction lane and a data lane, each with one request, the translation sequence
they share, the slot that gives one update service the idle router, and the services
and micro-TLBs inside.

The private copies of `running_q` are that register, and the sticky pins that only
describe the last untyped fault are left out.  An instruction response is a word of
the two-wide build, a data word one of the 64-bit build.
-/

namespace SloPPC603
namespace Router

open Clocked

/-! ## States of the parts -/

/-- `route_state_t`. -/
inductive RouteState
  | idle
  | translateOffer
  | translateResponse
  | segmentOffer
  | segmentResponse
  | pageOffer
  | pageResponse
  | dataFaultResponse
  | ifetchFaultResponse
  | ifetchFatal
  | invalid
  deriving DecidableEq, Repr

/-- `lane_state_t`. -/
inductive LaneState
  | idle
  | wait
  | slow
  | offer
  | response
  | fatal
  deriving DecidableEq, Repr

/-- `owner_t`. -/
inductive Owner
  | none
  | batCsr
  | segment
  | tlbInv
  | tlbFill
  | tlbMgmt
  deriving DecidableEq, Repr

/-! ## Ports -/

/-- The port of a service whose updates are prepared. -/
structure UpdatePort (R : Type) where
  reqValid : Bool := false
  req : R
  rspReady : Bool := false
  commit : Bool := false
  abort : Bool := false
  ackReady : Bool := false

/-- The payload of `bat_csr_req`. -/
structure BatCsrReq where
  write : Bool := false
  spr : BitVec 10 := 0
  data : BitVec 32 := 0

/-- The payload of `segment_csr_req`. -/
structure SegmentCsrReq where
  write : Bool := false
  index : BitVec 4 := 0
  data : BitVec 32 := 0

/-- The payload of `tlb_fill_req`. -/
structure TlbFillReq where
  bank : Bool := false
  ea : BitVec 32 := 0
  vsid : BitVec 24 := 0
  way : Bool := false
  rpn : BitVec 20 := 0
  c : Bool := false
  wimg : BitVec 4 := 0
  pp : BitVec 2 := 0
  ext : BitVec 5 := 0

/-- The payload of `tlb_mgmt_req`. -/
structure TlbMgmtReq where
  kind : BitVec 2 := 0
  bank : Bool := false
  ea : BitVec 32 := 0
  vsid : BitVec 24 := 0
  pr : Bool := false
  way : Bool := false
  rpn : BitVec 20 := 0
  c : Bool := false
  wimg : BitVec 4 := 0
  pp : BitVec 2 := 0

/-- An MSR context offered with `start` or `context`. -/
structure ContextPort where
  valid : Bool := false
  ir : Bool := false
  dr : Bool := false
  pr : Bool := false

/-- What the physical instruction port answers. -/
structure FetchAnswer where
  insn : BitVec 65 := 0
  hints : BitVec 6 := 0
  error : Bool := false
  deriving DecidableEq, Repr

/-- What the physical data port answers. -/
structure DataAnswer where
  rdata : BitVec 64 := 0
  error : Bool := false
  dsError : Bool := false
  deriving DecidableEq, Repr

/-- The payload of `dmem_req`; of its attributes the class, the floating-point mark
and the speculation mark are read. -/
structure DataReq where
  write : Bool := false
  addr : BitVec 32 := 0
  wdata : BitVec 64 := 0
  wstrb : BitVec 8 := 0
  kind : DmemKind := .normal
  fp : Bool := false
  spec : Bool := false
  deriving DecidableEq, Repr

/-- The inputs of one cycle. -/
structure Input where
  rstN : Bool := true
  batWriteValid : Bool := false
  batWriteSpr : BitVec 10 := 0
  batWriteData : BitVec 32 := 0
  batWriteRspReady : Bool := false
  batCsr : UpdatePort BatCsrReq := { req := {} }
  segmentCsr : UpdatePort SegmentCsrReq := { req := {} }
  tlbInv : UpdatePort (BitVec 32) := { req := 0 }
  tlbFill : UpdatePort TlbFillReq := { req := {} }
  tlbMgmtReqValid : Bool := false
  tlbMgmtReq : TlbMgmtReq := {}
  tlbMgmtRspReady : Bool := false
  start : ContextPort := {}
  context : ContextPort := {}
  mmu602 : Mmu602 := {}
  pimemReqReady : Bool := false
  pimemRspValid : Bool := false
  pimemRsp : FetchAnswer := {}
  pdmemReqReady : Bool := false
  pdmemRspValid : Bool := false
  pdmemRsp : DataAnswer := {}
  storeCheckPage : BitVec 20 := 0
  imemReqValid : Bool := false
  imemReqAddr : BitVec 32 := 0
  imemRspReady : Bool := false
  dmemReqValid : Bool := false
  dataSpecOk : Bool := false
  dmemReq : DataReq := {}
  dataPageProjection : MicroTlb.Projection := {}
  dmemRspReady : Bool := false

/-! ## Registers -/

/-- The registers. -/
structure State where
  route : RouteState
  iState : LaneState
  dState : LaneState
  iEa : BitVec 32
  dEa : BitVec 32
  iPa : BitVec 32
  dPa : BitVec 32
  dWdata : BitVec 64
  dWstrb : BitVec 8
  iWimg : BitVec 4
  dWimg : BitVec 4
  dWrite : Bool
  dKind : DmemKind
  dFp : Bool
  dDs : Bool
  dDsTag : BitVec 26
  /-- A second response is owed behind the first. -/
  dSecond : Bool
  dsNoop : Bool
  owner : Owner
  tlbFillEa : BitVec 32
  tlbFillBank : Bool
  running : Bool
  contextIr : Bool
  contextDr : Bool
  contextPr : Bool
  mmu602 : Mmu602
  iEsa : EsaEnable
  fetchFault : FetchFault
  dataFault : DataFault
  lastGrantData : Bool
  request : Request
  pageSr : BitVec 32
  pageMissResult : PageMiss
  fault : Bool
  pimemError : Bool
  ifetchFatal : Bool
  iRefetch : Bool
  bat : Bat.State
  segment : Segment.State
  tlb : Tlb.State
  iUtlb : MicroTlb.State
  dUtlb : MicroTlb.State

section Signals

variable (cfg : Config) (s : State) (i : Input)

/-! ## The lanes -/

/-- `lanes_idle`. -/
def lanesIdle : Bool := s.iState = .idle && s.dState = .idle

/-- `lane_accept_ok`. -/
def laneAcceptOk : Bool := i.rstN && s.running && s.owner = .none && !s.ifetchFatal

/-- `i_hit`. -/
def iHit : Bool :=
  cfg.enableMicroTlb &&
    MicroTlb.hit cfg.iUtlb s.iUtlb (i.imemReqAddr.extractLsb' 12 20) false {}

/-- `i_hit_rpn`, as an address. -/
def iHitPa : BitVec 32 :=
  MicroTlb.hitRpn cfg.iUtlb s.iUtlb (i.imemReqAddr.extractLsb' 12 20) {} ++
    i.imemReqAddr.extractLsb' 0 12

/-- `i_hit_wimg`. -/
def iHitWimg : BitVec 4 :=
  MicroTlb.hitWimg cfg.iUtlb s.iUtlb (i.imemReqAddr.extractLsb' 12 20) {}

/-- `i_hit_esa`. -/
def iHitEsa : EsaEnable :=
  MicroTlb.hitEsa cfg.iUtlb s.iUtlb (i.imemReqAddr.extractLsb' 12 20) {}

/-- `d_hit`. -/
def dHit : Bool :=
  cfg.enableMicroTlb &&
    MicroTlb.hit cfg.dUtlb s.dUtlb (i.dmemReq.addr.extractLsb' 12 20) i.dmemReq.write
      i.dataPageProjection

/-- `d_hit_rpn`, as an address. -/
def dHitPa : BitVec 32 :=
  MicroTlb.hitRpn cfg.dUtlb s.dUtlb (i.dmemReq.addr.extractLsb' 12 20) i.dataPageProjection ++
    i.dmemReq.addr.extractLsb' 0 12

/-- `d_hit_wimg`. -/
def dHitWimg : BitVec 4 :=
  MicroTlb.hitWimg cfg.dUtlb s.dUtlb (i.dmemReq.addr.extractLsb' 12 20) i.dataPageProjection

/-- `store_check_ok_o`. -/
def storeCheckOk : Bool :=
  cfg.enableMicroTlb && s.running && MicroTlb.checkHit cfg.dUtlb s.dUtlb i.storeCheckPage

/-- `i_refetch`: a fetch error is fetched once more. -/
def iRefetchFire : Bool :=
  cfg.fetchTeaRefetch && cfg.enableMachineCheck && s.iState = .response && i.pimemRspValid &&
    i.pimemRsp.error && !s.iRefetch

/-- `i_finish`. -/
def iFinish : Bool :=
  s.iState = .response && i.pimemRspValid && !iRefetchFire cfg s i &&
    (cfg.enableMachineCheck || !i.pimemRsp.error) && i.imemRspReady

/-- `d_finish`. -/
def dFinish : Bool := s.dState = .response && i.pdmemRspValid && i.dmemRspReady

/-- `imem_req_ready`. -/
def imemReqReady : Bool := laneAcceptOk s i && (s.iState = .idle || iFinish cfg s i)

/-- `i_accept`. -/
def iAccept : Bool := i.imemReqValid && imemReqReady cfg s i

/-- `i_pipe_try`. -/
def iPipeTry : Bool := cfg.enableFetchPipeline && iAccept cfg s i && iHit cfg s i

/-- A speculative request may be accepted. -/
def specOk : Bool := !(dHitWimg cfg s i).getLsbD 2 && i.dataSpecOk

/-- `d_pipe_try`. -/
def dPipeTry : Bool :=
  cfg.enableDataPipeline && i.dmemReqValid && dHit cfg s i && i.dmemReq.kind = .normal &&
    laneAcceptOk s i && (!i.dmemReq.spec || specOk cfg s i) &&
    (s.dState = .idle ||
      (s.dState = .response && ((!s.dSecond && !s.dDs) || dFinish s i)))

/-- `d_pipe_accept`. -/
def dPipeAccept : Bool := dPipeTry cfg s i && i.pdmemReqReady

/-- `d_pipe_now`. -/
def dPipeNow : Bool := cfg.enableDataPipeline && s.dState ≠ .offer

/-- `dmem_req_ready`. -/
def dmemReqReady : Bool :=
  if dPipeTry cfg s i then i.pdmemReqReady
  else
    laneAcceptOk s i && (s.dState = .idle || (dFinish s i && !s.dSecond)) &&
      (!i.dmemReq.spec || (dHit cfg s i && specOk cfg s i))

/-- `d_accept`. -/
def dAccept : Bool := i.dmemReqValid && dmemReqReady cfg s i

/-- The instruction lane wants the translation sequence. -/
def wantInstruction : Bool := s.iState = .wait || (iAccept cfg s i && !iHit cfg s i)

/-- The data lane wants it. -/
def wantData : Bool := s.dState = .wait || (dAccept cfg s i && !dHit cfg s i)

/-- `choose_instruction`. -/
def chooseInstruction : Bool :=
  i.rstN && s.route = .idle && wantInstruction cfg s i &&
    (!wantData cfg s i || s.lastGrantData)

/-- `choose_data`. -/
def chooseData : Bool :=
  i.rstN && s.route = .idle && wantData cfg s i &&
    (!wantInstruction cfg s i || !s.lastGrantData)

/-- `i_accept_state`. -/
def iAcceptState : LaneState :=
  if iHit cfg s i then
    if iPipeTry cfg s i && i.pimemReqReady then .response else .offer
  else if chooseInstruction cfg s i then .slow
  else .wait

/-- `d_accept_state`. -/
def dAcceptState : LaneState :=
  if dHit cfg s i then .offer else if chooseData cfg s i then .slow else .wait

/-! ## The slot of the update services -/

/-- `service_idle`. -/
def serviceIdle : Bool :=
  i.rstN && !s.bat.responseValid && !s.bat.prepared && !s.bat.ack && !s.bat.write &&
    !s.bat.writeStore

/-- `segment_service_idle`. -/
def segmentServiceIdle : Bool :=
  i.rstN && !s.segment.rspValid && !s.segment.prepared && !s.segment.commitAck

/-- `tlb_transaction_idle`. -/
def tlbTransactionIdle : Bool :=
  i.rstN && !s.tlb.responseValid && !s.tlb.lookup && !s.tlb.prepared && !s.tlb.commitAck

/-- `slot_free`. -/
def slotFree : Bool :=
  i.rstN && s.route = .idle && s.owner = .none && lanesIdle s && serviceIdle s i &&
    segmentServiceIdle s i && tlbTransactionIdle s i && !i.imemReqValid && !i.dmemReqValid

/-- `slot_eligible`. -/
def slotEligible : Owner → Bool
  | .none => false
  | .batCsr => cfg.enableRuntimeBat && s.running
  | .segment => cfg.enableSegmentRegisters && s.running
  | .tlbInv => cfg.enableTlbInvalidate && s.running
  | .tlbFill => cfg.enableTlbLoad && s.running
  | .tlbMgmt =>
    cfg.enablePageTranslation && !i.batWriteValid && !s.bat.responseValid &&
      !(s.running && i.context.valid)

/-- `slot_pending`. -/
def slotPending : Owner → Bool
  | .none => false
  | .batCsr => cfg.enableRuntimeBat && i.batCsr.reqValid
  | .segment => cfg.enableSegmentRegisters && i.segmentCsr.reqValid
  | .tlbInv => cfg.enableTlbInvalidate && i.tlbInv.reqValid
  | .tlbFill => cfg.enableTlbLoad && i.tlbFill.reqValid
  | .tlbMgmt => cfg.enablePageTranslation && i.tlbMgmtReqValid

/-- The requesters of higher priority. -/
def higher : Owner → List Owner
  | .none | .batCsr => []
  | .segment => [.batCsr]
  | .tlbInv => [.batCsr, .segment]
  | .tlbFill => [.batCsr, .segment, .tlbInv]
  | .tlbMgmt => [.batCsr, .segment, .tlbInv, .tlbFill]

/-- `slot_offer`. -/
def slotOffer (o : Owner) : Bool :=
  slotFree s i && slotEligible cfg s i o && !(higher o).any (slotPending cfg i)

/-- The request line of a requester, as the grants read it. -/
def slotRequest : Owner → Bool
  | .none => false
  | .batCsr => i.batCsr.reqValid
  | .segment => i.segmentCsr.reqValid
  | .tlbInv => i.tlbInv.reqValid
  | .tlbFill => i.tlbFill.reqValid
  | .tlbMgmt => i.tlbMgmtReqValid

/-- A requester is offered the slot and requests it. -/
def slotAsk (o : Owner) : Bool := slotOffer cfg s i o && slotRequest i o

/-! ## The block address service -/

/-- `service_pr`. -/
def servicePr : Bool :=
  s.running && (if s.route = .translateOffer then s.request.pr else s.contextPr)

/-- `bat_req_valid`. -/
def batReqValid : Bool :=
  if !s.running then i.batWriteValid && s.owner ≠ .tlbMgmt
  else if s.route = .translateOffer then true
  else slotAsk cfg s i .batCsr

/-- The request of the block address service. -/
def batReq : Bat.Request where
  kind :=
    if !s.running then .sprWrite
    else if s.route = .translateOffer then
      if s.request.instruction then .translateI
      else if s.request.write then .translateWrite else .translateRead
    else if i.batCsr.req.write then .prepareWrite else .sprRead
  ea := if s.running && s.route = .translateOffer then s.request.ea else 0
  spr :=
    if !s.running then i.batWriteSpr
    else if s.route = .translateOffer then 0 else i.batCsr.req.spr
  data :=
    if !s.running then i.batWriteData
    else if s.route = .translateOffer then 0 else i.batCsr.req.data
  ir := s.request.ir
  dr := s.request.dr
  pr := servicePr s
  defaultWimg := s.mmu602.wimg

/-- `bat_rsp_ready`. -/
def batRspReady : Bool :=
  if !s.running then i.batWriteRspReady
  else if s.owner = .batCsr then i.batCsr.rspReady
  else s.route = .translateResponse

/-- The inputs of the block address service. -/
def batInput : Bat.Input where
  rstN := i.rstN
  prepareCommit := cfg.enableRuntimeBat && s.running && i.batCsr.commit
  prepareAbort := cfg.enableRuntimeBat && s.running && i.batCsr.abort
  commitAckReady := cfg.enableRuntimeBat && s.owner = .batCsr && i.batCsr.ackReady
  reqValid := batReqValid cfg s i
  req := batReq s i
  rspReady := batRspReady s i

/-- `bat_req_ready`. -/
def batReqReady : Bool := Bat.reqReady s.bat (batInput cfg s i)

/-! ## The segment registers -/

/-- `segment_req_valid`. -/
def segmentReqValid : Bool :=
  slotAsk cfg s i .segment || (cfg.enablePageTranslation && s.route = .segmentOffer)

/-- `segment_rsp_ready`. -/
def segmentRspReady : Bool :=
  (s.owner = .segment && i.segmentCsr.rspReady) ||
    (cfg.enablePageTranslation && s.route = .segmentResponse)

/-- The request of the segment registers. -/
def segmentReq : Segment.Request where
  kind :=
    if s.route = .segmentOffer then .snapshot
    else if i.segmentCsr.req.write then .prepare else .read
  index :=
    if s.route = .segmentOffer then (segmentEa s.request).extractLsb' 28 4
    else i.segmentCsr.req.index
  address := if s.route = .segmentOffer then segmentEa s.request else 0
  data := i.segmentCsr.req.data
  pr := if s.route = .segmentOffer then s.request.pr else s.contextPr

/-- The inputs of the segment registers. -/
def segmentInput : Segment.Input where
  rstN := i.rstN
  prepareCommit :=
    cfg.enableSegmentRegisters && s.running && s.owner = .segment && i.segmentCsr.commit
  prepareAbort :=
    cfg.enableSegmentRegisters && s.running && s.owner = .segment && i.segmentCsr.abort
  commitAckReady := cfg.enableSegmentRegisters && s.owner = .segment && i.segmentCsr.ackReady
  reqValid := segmentReqValid cfg s i
  req := segmentReq s i
  rspReady := segmentRspReady cfg s i

/-- `segment_req_ready`. -/
def segmentReqReady : Bool := Segment.reqReady s.segment (segmentInput cfg s i)

/-! ## The TLB service -/

/-- `tlb_req_valid`. -/
def tlbReqValid : Bool :=
  slotAsk cfg s i .tlbMgmt || slotAsk cfg s i .tlbInv || slotAsk cfg s i .tlbFill ||
    (cfg.enablePageTranslation && s.route = .pageOffer)

/-- `tlb_rsp_ready`. -/
def tlbRspReady : Bool :=
  (s.owner = .tlbMgmt && i.tlbMgmtRspReady) || (s.owner = .tlbInv && i.tlbInv.rspReady) ||
    (s.owner = .tlbFill && i.tlbFill.rspReady) ||
    (cfg.enablePageTranslation && s.route = .pageResponse)

/-- `tlb_req_ready`. -/
def tlbReqReady : Bool :=
  Tlb.reqReady s.tlb { rstN := i.rstN, rspReady := tlbRspReady cfg s i }

/-- A field of the TLB request outside a lookup: the invalidation's, the load's or the
management request's. -/
def tlbUpdateField {α : Type} (inv fill mgmt : α) : α :=
  if slotAsk cfg s i .tlbInv then inv else if slotAsk cfg s i .tlbFill then fill else mgmt

/-- The request of the TLB service. -/
def tlbReq : Tlb.Request where
  kind :=
    if s.route = .pageOffer then .lookup
    else tlbUpdateField cfg s i .prepareInvalidate .prepareRefill
      (if i.tlbMgmtReq.kind = 1 then .refill
        else if i.tlbMgmtReq.kind = 2 then .invalidateSet else .reserved)
  bank :=
    if s.route = .pageOffer then !s.request.instruction
    else tlbUpdateField cfg s i false i.tlbFill.req.bank i.tlbMgmtReq.bank
  ea :=
    if s.route = .pageOffer then s.request.ea
    else tlbUpdateField cfg s i i.tlbInv.req i.tlbFill.req.ea i.tlbMgmtReq.ea
  vsid :=
    if s.route = .pageOffer then s.pageSr.extractLsb' 0 24
    else tlbUpdateField cfg s i 0 i.tlbFill.req.vsid i.tlbMgmtReq.vsid
  pr :=
    if s.route = .pageOffer then s.request.pr
    else tlbUpdateField cfg s i s.contextPr s.contextPr i.tlbMgmtReq.pr
  ks := s.route = .pageOffer && srKs s.pageSr
  kp := s.route = .pageOffer && srKp s.pageSr
  n := s.route = .pageOffer && srN s.pageSr
  t := s.route = .pageOffer && srT s.pageSr
  write := s.route = .pageOffer && s.request.write
  way := tlbUpdateField cfg s i false i.tlbFill.req.way i.tlbMgmtReq.way
  rpn := tlbUpdateField cfg s i 0 i.tlbFill.req.rpn i.tlbMgmtReq.rpn
  c := tlbUpdateField cfg s i false i.tlbFill.req.c i.tlbMgmtReq.c
  wimg := tlbUpdateField cfg s i 0 i.tlbFill.req.wimg i.tlbMgmtReq.wimg
  pp := tlbUpdateField cfg s i 0 i.tlbFill.req.pp i.tlbMgmtReq.pp
  po := if s.route = .pageOffer then s.request.po else cfg.has602 && s.mmu602.po
  ext := if slotAsk cfg s i .tlbFill then i.tlbFill.req.ext else 0

/-- A requester is offered the slot and granted it. -/
def slotGrant : Owner → Bool
  | .none => false
  | .batCsr => slotAsk cfg s i .batCsr && batReqReady cfg s i
  | .segment => slotAsk cfg s i .segment && segmentReqReady cfg s i
  | .tlbInv => slotAsk cfg s i .tlbInv && tlbReqReady cfg s i
  | .tlbFill => slotAsk cfg s i .tlbFill && tlbReqReady cfg s i
  | .tlbMgmt => slotAsk cfg s i .tlbMgmt && tlbReqReady cfg s i

/-- The inputs of the TLB service. -/
def tlbInput : Tlb.Input where
  rstN := i.rstN
  prepareCommit :=
    s.running && ((cfg.enableTlbInvalidate && s.owner = .tlbInv && i.tlbInv.commit) ||
      (cfg.enableTlbLoad && s.owner = .tlbFill && i.tlbFill.commit))
  prepareAbort :=
    s.running &&
      ((cfg.enableTlbInvalidate && i.tlbInv.abort &&
          (s.owner = .tlbInv ||
            (i.tlbInv.reqValid && slotOffer cfg s i .tlbInv && tlbReqReady cfg s i))) ||
        (cfg.enableTlbLoad && i.tlbFill.abort &&
          (s.owner = .tlbFill ||
            (i.tlbFill.reqValid && slotOffer cfg s i .tlbFill && tlbReqReady cfg s i))))
  commitAckReady :=
    (cfg.enableTlbInvalidate && s.owner = .tlbInv && i.tlbInv.ackReady) ||
      (cfg.enableTlbLoad && s.owner = .tlbFill && i.tlbFill.ackReady)
  reqValid := tlbReqValid cfg s i
  req := tlbReq cfg s i
  rspReady := tlbRspReady cfg s i

/-! ## Starting and contexts -/

/-- `start_ready_o`. -/
def startReady : Bool :=
  i.rstN && !s.running && !i.batWriteValid && !s.bat.responseValid && batReqReady cfg s i &&
    s.owner ≠ .tlbMgmt && !(cfg.enablePageTranslation && i.tlbMgmtReqValid)

/-- `quiescent_o`. -/
def quiescent : Bool :=
  i.rstN && s.running && s.route = .idle && lanesIdle s &&
    (!s.bat.responseValid || (cfg.enableRuntimeBat && s.owner = .batCsr)) &&
    (!s.segment.rspValid || s.owner = .segment) &&
    (!s.tlb.responseValid || s.owner = .tlbMgmt || s.owner = .tlbInv || s.owner = .tlbFill) &&
    !i.imemReqValid && !i.dmemReqValid

/-- `context_ready_o`. -/
def contextReady : Bool :=
  cfg.enableLiveContext && quiescent cfg s i &&
    (!cfg.enableRuntimeBat || (s.owner ≠ .batCsr && !i.batCsr.reqValid)) &&
    (!cfg.enableSegmentRegisters || (s.owner ≠ .segment && !i.segmentCsr.reqValid)) &&
    (!cfg.enablePageTranslation || s.owner ≠ .tlbMgmt) &&
    (!cfg.enableTlbInvalidate || (s.owner ≠ .tlbInv && !i.tlbInv.reqValid)) &&
    (!cfg.enableTlbLoad || (s.owner ≠ .tlbFill && !i.tlbFill.reqValid))

/-- The router starts on this edge. -/
def startFire : Bool := i.start.valid && startReady cfg s i

/-- A context is installed on this edge. -/
def contextFire : Bool := i.context.valid && contextReady cfg s i

/-! ## The translation sequence -/

/-- A block address reply is read on this edge. -/
def batReply : Bool := s.route = .translateResponse && s.bat.responseValid

/-- A page reply is read on this edge. -/
def pageReply : Bool := s.route = .pageResponse && s.tlb.responseValid

/-- `route_allow`. -/
def routeAllow : Bool :=
  (batReply s && s.bat.response.translation.allow) ||
    (pageReply s && pageReplyAllow s.request s.tlb.response)

/-- `ds_route`. -/
def dsRouteFire : Bool :=
  pageReply s && dsRoute cfg s.request s.pageSr s.tlb.response s.dKind s.dFp

/-- `route_from_tlb`. -/
def routeFromTlb : Bool := s.route = .pageResponse

/-- `route_write_ok`. -/
def routeWriteOk : Bool :=
  if routeFromTlb s then pageWriteOk s.request s.pageSr s.tlb.response
  else batWriteOk s.request s.bat.response

/-- `route_pa`. -/
def routePa : BitVec 32 :=
  if routeFromTlb s then s.tlb.response.pa else s.bat.response.translation.pa

/-- `route_wimg`. -/
def routeWimg : BitVec 4 :=
  if routeFromTlb s then pageWimg s.request s.tlb.response s.mmu602
  else s.bat.response.translation.wimg

/-- `route_esa`. -/
def routeEsa : EsaEnable :=
  if routeFromTlb s then s.tlb.response.esa else batEsa s.bat.response

/-- `route_set_touch`. -/
def routeSetTouch : Bool := pageReply s && s.tlb.response.hit

/-- The block address reply denies the access. -/
def batDenied : Bool :=
  batReply s && !s.bat.response.translation.allow &&
    !cleanBatPageMiss cfg s.request s.bat.response

/-- The segment reply is the snapshot that was asked for. -/
def snapshotGood : Bool :=
  let r := s.segment.rsp
  r.kind = .snapshot && r.index = (segmentEa s.request).extractLsb' 28 4 &&
    r.address = segmentEa s.request && !r.privileged && !r.unsupported

/-- The segment reply is malformed. -/
def snapshotBad : Bool := s.route = .segmentResponse && s.segment.rspValid && !snapshotGood s

/-- The page reply denies the access. -/
def pageDenied : Bool :=
  pageReply s && !pageReplyAllow s.request s.tlb.response && !dsRouteFire cfg s

/-- The translation ends without a typed outcome. -/
def untyped : Bool :=
  (batDenied cfg s && !batTypedFault cfg s.request s.bat.response) || snapshotBad s ||
    (pageDenied cfg s && !pageTypedFault cfg s.request s.pageSr s.tlb.response)

/-- `utlb_flush`. -/
def utlbFlush : Bool :=
  !s.running || contextFire cfg s i || (cfg.enableRuntimeBat && i.batCsr.commit) ||
    (cfg.enableSegmentRegisters && s.owner = .segment && i.segmentCsr.commit) ||
    (cfg.enableTlbInvalidate && s.owner = .tlbInv && i.tlbInv.commit) ||
    (cfg.enableTlbLoad && s.owner = .tlbFill && i.tlbFill.commit) || s.owner = .tlbMgmt

/-- The inputs of the instruction micro-TLB. -/
def iUtlbInput : MicroTlb.Input where
  rstN := i.rstN
  flush := utlbFlush cfg s i
  setFlush := routeSetTouch s && s.request.instruction
  setFlushIndex := requestSet cfg s.request
  fill := cfg.enableMicroTlb && routeAllow s && s.request.instruction
  fillEntry :=
    { page := s.request.ea.extractLsb' 12 20
      rpn := (routePa s).extractLsb' 12 20
      wimg := routeWimg s
      esa := routeEsa s
      set := requestSet cfg s.request
      writeOk := false
      fromTlb := routeFromTlb s }

/-- The inputs of the data micro-TLB. -/
def dUtlbInput : MicroTlb.Input where
  rstN := i.rstN
  flush := utlbFlush cfg s i
  setFlush := routeSetTouch s && !s.request.instruction
  setFlushIndex := requestSet cfg s.request
  fill := cfg.enableMicroTlb && routeAllow s && !s.request.instruction
  fillEntry :=
    { page := s.request.ea.extractLsb' 12 20
      rpn := (routePa s).extractLsb' 12 20
      wimg := routeWimg s
      esa := .denied
      set := requestSet cfg s.request
      writeOk := routeWriteOk s
      fromTlb := routeFromTlb s }

/-! ## The physical ports -/

/-- The payload of `pimem_req`. -/
structure FetchAccess where
  addr : BitVec 32
  wimg : BitVec 4
  deriving DecidableEq, Repr

/-- The payload of `pdmem_req`. -/
structure DataAccess where
  write : Bool
  addr : BitVec 32
  wdata : BitVec 64
  wstrb : BitVec 8
  wimg : BitVec 4
  ds : Bool
  dsTag : BitVec 26
  deriving DecidableEq, Repr

/-- `pimem_req_valid_o`. -/
def pimemReqValid : Bool := i.rstN && (s.iState = .offer || iPipeTry cfg s i)

/-- The fetch offered. -/
def pimemReq : FetchAccess :=
  if !cfg.enableFetchPipeline || s.iState = .offer then ⟨s.iPa, s.iWimg⟩
  else ⟨iHitPa cfg s i, iHitWimg cfg s i⟩

/-- `pdmem_req_valid_o`. -/
def pdmemReqValid : Bool := i.rstN && (s.dState = .offer || dPipeTry cfg s i)

/-- The data access offered. -/
def pdmemReq : DataAccess :=
  if dPipeNow cfg s then
    { write := i.dmemReq.write, addr := dHitPa cfg s i, wdata := i.dmemReq.wdata
      wstrb := i.dmemReq.wstrb, wimg := dHitWimg cfg s i, ds := false, dsTag := s.dDsTag }
  else
    { write := s.dWrite, addr := s.dPa, wdata := s.dWdata, wstrb := s.dWstrb, wimg := s.dWimg
      ds := s.dDs, dsTag := s.dDsTag }

/-- A physical fetch error stops the lane: there is no machine check to return it as. -/
def iError : Bool :=
  s.iState = .response && !cfg.enableMachineCheck && i.pimemRspValid && i.pimemRsp.error

/-- `pimem_rsp_ready_o`. -/
def pimemRspReady : Bool :=
  i.rstN && s.iState = .response && (iError cfg s i || iRefetchFire cfg s i || i.imemRspReady)

/-- `pdmem_rsp_ready_o`. -/
def pdmemRspReady : Bool := i.rstN && s.dState = .response && i.dmemRspReady

/-! ## The responses -/

/-- The payload of `imem_rsp`. -/
structure FetchResponse where
  insn : BitVec 65
  hints : BitVec 6
  fault : FetchFault
  pageMiss : PageMiss
  esa : EsaEnable
  deriving DecidableEq, Repr

/-- The payload of `dmem_rsp`. -/
structure DataResponse where
  rdata : BitVec 64
  error : Bool
  fault : DataFault
  pageMiss : PageMiss
  deriving DecidableEq, Repr

/-- `imem_rsp_valid_o`. -/
def imemRspValid : Bool :=
  i.rstN &&
    (if s.iState = .response then
      i.pimemRspValid && !iError cfg s i && !iRefetchFire cfg s i
    else s.route = .ifetchFaultResponse)

/-- `imem_rsp_fault_o` of a valid response. -/
def imemRspFault : FetchFault :=
  if s.iState = .response then
    if cfg.enableMachineCheck && (i.pimemRsp.error || s.iRefetch) then
      if s.iRefetch && i.pimemRsp.error then .teaRepeat else .machineCheck
    else .ok
  else s.fetchFault

/-- The word of a valid response is zero. -/
def imemRspBlank : Bool :=
  if s.iState = .response then cfg.enableMachineCheck && (i.pimemRsp.error || s.iRefetch)
  else true

/-- A valid instruction response. -/
def imemRsp : FetchResponse where
  insn := if imemRspBlank cfg s i then 0 else i.pimemRsp.insn
  hints := if imemRspBlank cfg s i then 0 else i.pimemRsp.hints
  fault := imemRspFault cfg s i
  pageMiss :=
    if cfg.enablePageMissResults && imemRspFault cfg s i = .pageMiss then s.pageMissResult
    else default
  esa := if s.iState = .response && cfg.has602 then s.iEsa else .denied

/-- `dmem_rsp_valid_o`. -/
def dmemRspValid : Bool :=
  i.rstN &&
    (if s.dState = .response then i.pdmemRspValid else s.route = .dataFaultResponse)

/-- `dmem_rsp_fault_o` of a valid response. -/
def dmemRspFault : DataFault :=
  if s.dState = .response then
    if cfg.enableMachineCheck && i.pdmemRsp.error then .machineCheck
    else if s.dDs && i.pdmemRsp.dsError && !i.pdmemRsp.error then .dsiDirectStoreError
    else .ok
  else s.dataFault

/-- A valid data response. -/
def dmemRsp : DataResponse where
  rdata :=
    if s.dState = .response then
      if cfg.enableMachineCheck && i.pdmemRsp.error then 0 else i.pdmemRsp.rdata
    else 0
  error :=
    if s.dState = .response then !cfg.enableMachineCheck && i.pdmemRsp.error
    else s.dataFault = .ok && !s.dsNoop
  fault := dmemRspFault cfg s i
  pageMiss :=
    if cfg.enablePageMissResults &&
        (dmemRspFault cfg s i = .pageMiss || dmemRspFault cfg s i = .pageChanged) then
      s.pageMissResult
    else default

/-! ## The clock edge -/

/-- The lane a translation is for has asked for it on this edge. -/
def choose : Bool := chooseInstruction cfg s i || chooseData cfg s i

/-- `state_q` after the edge. -/
def nextRoute : RouteState :=
  match s.route with
  | .idle => if choose cfg s i then .translateOffer else .idle
  | .translateOffer =>
    if batReqValid cfg s i && batReqReady cfg s i then .translateResponse else .translateOffer
  | .translateResponse =>
    if !s.bat.responseValid then .translateResponse
    else if s.bat.response.translation.allow then .idle
    else if cleanBatPageMiss cfg s.request s.bat.response then .segmentOffer
    else if !s.request.instruction then .dataFaultResponse
    else if batFetchIsi cfg s.bat.response then .ifetchFaultResponse
    else .ifetchFatal
  | .segmentOffer =>
    if segmentReqValid cfg s i && segmentReqReady cfg s i then .segmentResponse
    else .segmentOffer
  | .segmentResponse =>
    if !s.segment.rspValid then .segmentResponse
    else if snapshotGood s then .pageOffer
    else if s.request.instruction then .ifetchFatal
    else .dataFaultResponse
  | .pageOffer =>
    if tlbReqValid cfg s i && tlbReqReady cfg s i then .pageResponse else .pageOffer
  | .pageResponse =>
    if !s.tlb.responseValid then .pageResponse
    else if pageReplyAllow s.request s.tlb.response || dsRouteFire cfg s then .idle
    else if !s.request.instruction then .dataFaultResponse
    else if pageTypedFault cfg s.request s.pageSr s.tlb.response then .ifetchFaultResponse
    else .ifetchFatal
  | .dataFaultResponse => if i.dmemRspReady then .idle else .dataFaultResponse
  | .ifetchFaultResponse => if i.imemRspReady then .idle else .ifetchFaultResponse
  | .ifetchFatal => .ifetchFatal
  | .invalid => .invalid

/-- `i_state_q` after the edge. -/
def nextIState : LaneState :=
  match s.iState with
  | .idle => if iAccept cfg s i then iAcceptState cfg s i else .idle
  | .wait => if chooseInstruction cfg s i then .slow else .wait
  | .slow =>
    if routeAllow s && s.request.instruction then .offer
    else if s.route = .ifetchFaultResponse && i.imemRspReady then .idle
    else .slow
  | .offer => if i.pimemReqReady then .response else .offer
  | .response =>
    if iError cfg s i then .fatal
    else if iRefetchFire cfg s i then .offer
    else if iAccept cfg s i then iAcceptState cfg s i
    else if iFinish cfg s i then .idle
    else .response
  | .fatal => .fatal

/-- `d_state_q` after the edge. -/
def nextDState : LaneState :=
  match s.dState with
  | .idle =>
    if dPipeAccept cfg s i then .response
    else if dAccept cfg s i then dAcceptState cfg s i
    else .idle
  | .wait => if chooseData cfg s i then .slow else .wait
  | .slow =>
    if (routeAllow s && !s.request.instruction) || dsRouteFire cfg s then .offer
    else if s.route = .dataFaultResponse && i.dmemRspReady then .idle
    else .slow
  | .offer => if i.pdmemReqReady then .response else .offer
  | .response =>
    if dPipeAccept cfg s i then .response
    else if dAccept cfg s i then dAcceptState cfg s i
    else if dFinish s i && !s.dSecond then .idle
    else .response
  | .fatal => .fatal

/-- `d_second_q` after the edge. -/
def nextDSecond : Bool :=
  if s.dState ≠ .response then s.dSecond
  else if dPipeAccept cfg s i then s.dSecond || !dFinish s i
  else if dAccept cfg s i then s.dSecond
  else s.dSecond && !dFinish s i

/-- `owner_q` after the edge. -/
def nextOwner : Owner :=
  match s.owner with
  | .none =>
    if slotGrant cfg s i .batCsr then .batCsr
    else if slotGrant cfg s i .segment then .segment
    else if slotGrant cfg s i .tlbInv then .tlbInv
    else if slotGrant cfg s i .tlbFill then .tlbFill
    else if slotGrant cfg s i .tlbMgmt then .tlbMgmt
    else .none
  | .batCsr => if serviceIdle s i then .none else .batCsr
  | .segment => if segmentServiceIdle s i then .none else .segment
  | .tlbInv => if tlbTransactionIdle s i then .none else .tlbInv
  | .tlbFill => if tlbTransactionIdle s i then .none else .tlbFill
  | .tlbMgmt => if tlbTransactionIdle s i then .none else .tlbMgmt

/-- The request taken into the translation sequence. -/
def nextRequest : Request :=
  if choose cfg s i then
    { instruction := chooseInstruction cfg s i
      write := chooseData cfg s i && (if s.dState = .wait then s.dWrite else i.dmemReq.write)
      ea :=
        if chooseInstruction cfg s i then (if s.iState = .wait then s.iEa else i.imemReqAddr)
        else if s.dState = .wait then s.dEa else i.dmemReq.addr
      ir := s.contextIr
      dr := s.contextDr
      pr := s.contextPr || (cfg.has602 && s.mmu602.ap)
      po := cfg.has602 && s.mmu602.po }
  else s.request

/-- `fetch_fault_q` after the edge. -/
def nextFetchFault : FetchFault :=
  if batDenied cfg s && s.request.instruction && batFetchIsi cfg s.bat.response then
    if s.bat.response.translation.protectionFault then .isiProtection else .isiGuarded
  else if pageDenied cfg s && s.request.instruction &&
      pageTypedFault cfg s.request s.pageSr s.tlb.response then
    pageFetchFault cfg s.request s.pageSr s.tlb.response
  else s.fetchFault

/-- `data_fault_q` after the edge. -/
def nextDataFault : DataFault :=
  if batDenied cfg s && !s.request.instruction then
    if batDataDsi cfg s.bat.response then .dsiProtection else .ok
  else if snapshotBad s && !s.request.instruction then .ok
  else if pageDenied cfg s && !s.request.instruction then
    pageDataFault cfg s.request s.pageSr s.tlb.response s.dKind s.dFp
  else s.dataFault

/-- The translation of an instruction ends in the fatal state. -/
def fetchFatal : Bool :=
  s.request.instruction &&
    ((batDenied cfg s && !batFetchIsi cfg s.bat.response) || snapshotBad s ||
      (pageDenied cfg s && !pageTypedFault cfg s.request s.pageSr s.tlb.response))

/-- `mmu_602_q` as it is sampled. -/
def sampled602 : Mmu602 := if cfg.has602 then i.mmu602 else {}

/-- The registers after an edge out of reset. -/
def runState : State where
  route := nextRoute cfg s i
  iState := nextIState cfg s i
  dState := nextDState cfg s i
  iEa := if iAccept cfg s i then i.imemReqAddr else s.iEa
  dEa := if dAccept cfg s i then i.dmemReq.addr else s.dEa
  iPa :=
    if routeAllow s && s.request.instruction then routePa s
    else if iAccept cfg s i then iHitPa cfg s i else s.iPa
  dPa :=
    if routeAllow s && !s.request.instruction then routePa s
    else if dsRouteFire cfg s then dsAddress s.pageSr s.dEa
    else if dAccept cfg s i then dHitPa cfg s i else s.dPa
  dWdata := if dAccept cfg s i then i.dmemReq.wdata else s.dWdata
  dWstrb := if dAccept cfg s i then i.dmemReq.wstrb else s.dWstrb
  iWimg :=
    if routeAllow s && s.request.instruction then routeWimg s
    else if iAccept cfg s i then iHitWimg cfg s i else s.iWimg
  dWimg :=
    if routeAllow s && !s.request.instruction then routeWimg s
    else if dsRouteFire cfg s then dsWimg
    else if dAccept cfg s i then dHitWimg cfg s i else s.dWimg
  dWrite := if dAccept cfg s i then i.dmemReq.write else s.dWrite
  dKind := if dAccept cfg s i then i.dmemReq.kind else s.dKind
  dFp := if dAccept cfg s i then i.dmemReq.fp else s.dFp
  dDs := if dsRouteFire cfg s then true else if dAccept cfg s i then false else s.dDs
  dDsTag := if dsRouteFire cfg s then dsTag s.request s.pageSr else s.dDsTag
  dSecond := nextDSecond cfg s i
  dsNoop :=
    if pageReply s then
      dsCandidate cfg s.request s.pageSr s.tlb.response && s.dKind = .cache
    else if s.route = .dataFaultResponse && i.dmemRspReady then false
    else s.dsNoop
  owner := nextOwner cfg s i
  tlbFillEa := if slotGrant cfg s i .tlbFill then i.tlbFill.req.ea else s.tlbFillEa
  tlbFillBank := if slotGrant cfg s i .tlbFill then i.tlbFill.req.bank else s.tlbFillBank
  running := startFire cfg s i || s.running
  contextIr :=
    if contextFire cfg s i then i.context.ir
    else if startFire cfg s i then i.start.ir else s.contextIr
  contextDr :=
    if contextFire cfg s i then i.context.dr
    else if startFire cfg s i then i.start.dr else s.contextDr
  contextPr :=
    if contextFire cfg s i then i.context.pr
    else if startFire cfg s i then i.start.pr else s.contextPr
  mmu602 :=
    if contextFire cfg s i || startFire cfg s i then sampled602 cfg i else s.mmu602
  iEsa :=
    if routeAllow s && s.request.instruction then routeEsa s
    else if iAccept cfg s i then iHitEsa cfg s i else s.iEsa
  fetchFault := nextFetchFault cfg s
  dataFault := nextDataFault cfg s
  lastGrantData := if choose cfg s i then chooseData cfg s i else s.lastGrantData
  request := nextRequest cfg s i
  pageSr :=
    if s.route = .segmentResponse && s.segment.rspValid && snapshotGood s then
      pageSr s.request s.segment.rsp.data
    else s.pageSr
  pageMissResult :=
    if choose cfg s i then default
    else if pageDenied cfg s then pageMissResult cfg s.request s.pageSr s.tlb.response
    else s.pageMissResult
  fault := s.fault || untyped cfg s || s.route = .invalid
  pimemError := s.pimemError || iError cfg s i
  ifetchFatal :=
    s.ifetchFatal || iError cfg s i || s.dState = .fatal || fetchFatal cfg s ||
      s.route = .invalid
  iRefetch :=
    if iRefetchFire cfg s i then true else if iFinish cfg s i then false else s.iRefetch
  bat := Bat.step cfg.bat s.bat (batInput cfg s i)
  segment := Segment.step cfg.enableSegmentRegisters s.segment (segmentInput cfg s i)
  tlb := Tlb.step cfg.tlb s.tlb (tlbInput cfg s i)
  iUtlb := MicroTlb.step cfg.iUtlb s.iUtlb (iUtlbInput cfg s i)
  dUtlb := MicroTlb.step cfg.dUtlb s.dUtlb (dUtlbInput cfg s i)

/-- The registers after an edge in reset. -/
def resetState : State where
  route := .idle
  iState := .idle
  dState := .idle
  iEa := 0
  dEa := 0
  iPa := 0
  dPa := 0
  dWdata := 0
  dWstrb := 0
  iWimg := 0
  dWimg := 0
  dWrite := false
  dKind := .normal
  dFp := false
  dDs := false
  dDsTag := 0
  dSecond := false
  dsNoop := false
  owner := .none
  tlbFillEa := 0
  tlbFillBank := false
  running := false
  contextIr := false
  contextDr := false
  contextPr := false
  mmu602 := {}
  iEsa := .denied
  fetchFault := .ok
  dataFault := .ok
  lastGrantData := true
  request := ⟨false, false, 0, false, false, false, false⟩
  pageSr := 0
  pageMissResult := default
  fault := false
  pimemError := false
  ifetchFatal := false
  iRefetch := false
  bat := Bat.step cfg.bat s.bat (batInput cfg s i)
  segment := Segment.step cfg.enableSegmentRegisters s.segment (segmentInput cfg s i)
  tlb := Tlb.step cfg.tlb s.tlb (tlbInput cfg s i)
  iUtlb := MicroTlb.step cfg.iUtlb s.iUtlb (iUtlbInput cfg s i)
  dUtlb := MicroTlb.step cfg.dUtlb s.dUtlb (dUtlbInput cfg s i)

/-- One clock edge. -/
def step : State := if i.rstN then runState cfg s i else resetState cfg s i

end Signals

/-- The router as a clocked machine, started by an edge in reset. -/
def machine (cfg : Config) : Machine State Input where
  Initial := fun s => ∃ s₀ i, i.rstN = false ∧ s = step cfg s₀ i
  step := step cfg

end Router
end SloPPC603
