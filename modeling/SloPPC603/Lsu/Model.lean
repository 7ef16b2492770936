import SloPPC603.Rename.Model

/-!
# The pipelined load/store unit

The registers, combinational signals and clock edge of `ppc_lsu_pipe.sv`: P1 offers
one access a cycle, P2 holds the accepted ones and takes their responses in order,
Q and R finish them, and the store queue writes the retired stores.

P1, P2 and the store queue are lists, head first; a register behind a valid bit is
an option.  Every access carries `serial`, its place in dispatch order, and the
unit counts them; no signal reads either.  Of a uop only the fields the unit reads
are kept, and of the outputs only those a claim or a register depends on.
-/

namespace SloPPC603
namespace Lsu

open Rename (Operand Wake)

/-! ## Parameters, entries and registers -/

/-- The module's parameters. -/
structure Config where
  dmemBits : ℕ
  storeQueue : Bool
  baseSnoop : Bool
  baseWait : Bool
  enableMisalignedAccess : Bool
  fpDoubleHold : Bool
  fpSingleDenorm : Bool
  sqDepth : ℕ
  deriving DecidableEq, Repr

/-- The unit with its store queue. -/
def queueConfig : Config where
  dmemBits := 32
  storeQueue := true
  baseSnoop := false
  baseWait := false
  enableMisalignedAccess := false
  fpDoubleHold := false
  fpSingleDenorm := false
  sqDepth := 4

/-- `mem_size_t`. -/
inductive MemSize
  | byte
  | half
  | word
  deriving DecidableEq, Repr, Inhabited

/-- The members of `special_op_t` that the unit tells apart. -/
inductive SpecialOp
  | other
  | load
  | store
  | alignment
  deriving DecidableEq, Repr, Inhabited

/-- The fields of `uop_t` that the unit reads. -/
structure Uop where
  specialOp : SpecialOp
  memSize : MemSize
  memReverse : Bool
  memSigned : Bool
  memUpdate : Bool
  gprWrite : Bool
  deriving DecidableEq, Repr, Inhabited

/-- A word load. -/
def Uop.loadWord : Uop := ⟨.load, .word, false, false, false, true⟩

/-- A word store. -/
def Uop.storeWord : Uop := ⟨.store, .word, false, false, false, false⟩

/-- `entry_t`: an access in P1, P2, Q or the redo slot. -/
structure Entry where
  /-- The access's place in dispatch order. -/
  serial : ℕ
  killed : Bool
  fast : Bool
  store : Bool
  fp : Bool
  launched : Bool
  wide : Bool
  hold : Bool
  /-- A word beat of a doubleword; the second beat's EA advances as it reaches the
  head. -/
  split : Bool
  second : Bool
  advance : Bool
  dataReady : Bool
  dataLate : Bool
  baseLate : Bool
  dataTag : BitVec 3
  dataProducer : CompletionTag
  /-- A retired store's write. -/
  write : Bool
  /-- A load offered past queued stores. -/
  passed : Bool
  /-- Dispatched behind an unresolved branch. -/
  bspec : Bool
  baseWait : Bool
  baseTag : BitVec 3
  baseProducer : CompletionTag
  offset : BitVec 32
  producer : CompletionTag
  ea : BitVec 32
  data : BitVec 32
  pc : BitVec 32
  insn : BitVec 32
  munge : BitVec 3
  uop : Uop
  deriving DecidableEq, Repr, Inhabited

/-- `sq_entry_t`: a queued store. -/
structure SqEntry where
  /-- The store's place in dispatch order. -/
  serial : ℕ
  committed : Bool
  killed : Bool
  producer : CompletionTag
  addr : BitVec 32
  wdata : BitVec 64
  wstrb : BitVec 8
  bytes : ℕ
  fp : Bool
  /-- Queued behind a load that passed older stores and is still in P2. -/
  young : Bool
  deriving DecidableEq, Repr, Inhabited

/-- `r_q` and `r_store_q`: a result for the completion queue. -/
structure Result where
  serial : ℕ
  producer : CompletionTag
  value : BitVec 32
  updateValue : BitVec 32
  store : Bool
  deriving DecidableEq, Repr, Inhabited

/-- `r_fp_tag_q` and its companions: an answer for the FPU. -/
structure FpAnswer where
  serial : ℕ
  tag : CompletionTag
  fault : Bool
  data : BitVec 64
  deriving DecidableEq, Repr, Inhabited

/-- The inputs of one cycle. -/
structure Input where
  rstN : Bool := true
  dispatchValid : Bool := false
  uop : Uop := default
  producer : CompletionTag := default
  pc : BitVec 32 := 0
  insn : BitVec 32 := 0
  ea : BitVec 32 := 0
  data : Operand := ⟨true, 0, 0, default⟩
  baseSnoop : Bool := false
  base : Operand := ⟨true, 0, 0, default⟩
  offset : BitVec 32 := 0
  dr : Bool := false
  wake : Wake := {}
  wake1 : Wake := {}
  wakeEarlyValue : BitVec 32 := 0
  wake1EarlyValue : BitVec 32 := 0
  fp : Bool := false
  fpStore : Bool := false
  fpDouble : Bool := false
  fpLaunchValid : Bool := false
  fpLaunchTag : CompletionTag := default
  fpStoreValid : Bool := false
  fpStoreData : BitVec 64 := 0
  le : Bool := false
  recovery : Bool := false
  kill : ℕ → Bool := fun _ => false
  killGeneration : ℕ → ℕ := fun _ => 0
  storeAuthorize : Bool := false
  queueHead : ℕ := 0
  commit : Bool := false
  commitTag : CompletionTag := default
  commitMem : Bool := false
  branchSpec : Bool := false
  branchResolved : Bool := false
  chkOk : Bool := false
  laneIdle : Bool := true
  reqReady : Bool := false
  rspValid : Bool := false
  rspRdata : BitVec 64 := 0
  rspError : Bool := false
  rspFault : DataFault := .ok
  laneRspReady : Bool := false
  adoptReady : Bool := false

/-- The registers. -/
structure State where
  p1 : List Entry
  p2 : List Entry
  sq : List SqEntry
  q : Option Entry
  qYoung : Bool
  redo : Option Entry
  r : Option Result
  rFp : Option FpAnswer
  rspToLane : Bool
  offered : Bool
  offeredSpec : Bool
  sqOffered : Bool
  beat0 : BitVec 32
  convStore : BitVec 5
  convLoad : BitVec 5
  /-- The accesses dispatched so far. -/
  serials : ℕ
  deriving DecidableEq, Repr

/-! ## Functions of an access -/

/-- `nbytes`. -/
def nbytes : MemSize → ℕ
  | .byte => 1
  | .half => 2
  | .word => 4

/-- `lane_mask`. -/
def laneMask : MemSize → BitVec 4
  | .byte => 0b1000
  | .half => 0b1100
  | .word => 0b1111

/-- `int_fast`: a naturally aligned access. -/
def intFast (size : MemSize) (ea : BitVec 32) : Bool :=
  size = .byte || (size = .half && !ea.getLsbD 0) || ea.extractLsb' 0 2 = 0

/-- `int_trap`: the alignment exception of an access whose EA was formed in P1. -/
def intTrap (cfg : Config) (size : MemSize) (ea : BitVec 32) (dr : Bool) : Bool :=
  if !cfg.enableMisalignedAccess then !intFast size ea
  else size ≠ .byte && dr &&
    (if size = .word then
      ea.extractLsb' 2 10 = 0x3ff && ea.extractLsb' 0 2 ≠ 0
    else ea.extractLsb' 0 12 = 0xfff)

/-- `swap_bytes`. -/
def swapBytes (value : BitVec 32) (count : ℕ) : BitVec 32 :=
  if count = 2 then 0#16 ++ value.extractLsb' 0 8 ++ value.extractLsb' 8 8
  else value.extractLsb' 0 8 ++ value.extractLsb' 8 8 ++ value.extractLsb' 16 8 ++
    value.extractLsb' 24 8

/-- `fp_single_denorm_cycles`. -/
def fpSingleDenormCycles (w : BitVec 32) : BitVec 5 :=
  if w.extractLsb' 23 8 = 0 then
    (List.range 23).foldl (fun n k => if w.getLsbD k then BitVec.ofNat 5 (24 - k) else n) 0
  else 0

section Signals

variable (cfg : Config) (s : State) (i : Input)

/-- `killed_now`. -/
def killedNow (producer : CompletionTag) : Bool :=
  i.recovery && i.kill producer.index &&
    i.killGeneration producer.index = producer.generation

/-! ## The heads -/

/-- `p1_head`. -/
def p1Head : Entry := s.p1.headD default

/-- `p2_head`. -/
def p2Head : Entry := s.p2.headD default

/-- `sq_head`. -/
def sqHead : SqEntry := s.sq.headD default

/-- `p1_valid`. -/
def p1Valid : Bool := !s.p1.isEmpty

/-- `p2_valid`. -/
def p2Valid : Bool := !s.p2.isEmpty

/-- `sq_valid`. -/
def sqValid : Bool := !s.sq.isEmpty

/-- `p1_at_head`. -/
def p1AtHead : Bool := i.storeAuthorize && i.queueHead = (p1Head s).producer.index

/-! ## The head's data -/

/-- `head_wake`, `head_wake1`: a wake in time writes the head's store data. -/
def headWake (w : Wake) : Bool :=
  w.valid && !w.late && w.tag = (p1Head s).dataTag && w.producer = (p1Head s).dataProducer

/-- `head_data_ready`. -/
def headDataReady : Bool := (p1Head s).dataReady || headWake s i.wake || headWake s i.wake1

/-- `head_data`. -/
def headData : BitVec 32 :=
  if (p1Head s).dataReady then (p1Head s).data
  else if headWake s i.wake then i.wake.value else i.wake1.value

/-- `conv_store`: a single-precision store, other than `stfiwx`. -/
def convStore : Bool :=
  cfg.fpSingleDenorm && p1Valid s && (p1Head s).fp && (p1Head s).store && !(p1Head s).wide &&
    !(p1Head s).split && i.fpStoreValid &&
    !((p1Head s).insn.extractLsb' 26 6 = 31 && (p1Head s).insn.extractLsb' 1 10 = 983)

/-- `conv_store_cycles`. -/
def convStoreCycles : BitVec 5 :=
  if convStore cfg s i then fpSingleDenormCycles (i.fpStoreData.extractLsb' 0 32) else 0

/-- `conv_store_wait`. -/
def convStoreWait : Bool := s.convStore ≠ convStoreCycles cfg s i

/-- `p1_ready`. -/
def p1Ready : Bool :=
  if !(p1Head s).fp then headDataReady s i
  else !(p1Head s).hold && !(convStore cfg s i && convStoreWait cfg s i) &&
    (if (p1Head s).store then i.fpStoreValid else (p1Head s).launched)

/-! ## The head's address -/

/-- `head_base0`, `head_base1`: a wake in time writes the head's base. -/
def headBase (w : Wake) : Bool :=
  cfg.baseSnoop && w.valid && !w.late && w.tag = (p1Head s).baseTag &&
    w.producer = (p1Head s).baseProducer

/-- `head_base_ready`. -/
def headBaseReady : Bool :=
  !(p1Head s).baseWait || headBase cfg s i.wake || headBase cfg s i.wake1

/-- `head_ea`. -/
def headEa : BitVec 32 :=
  if cfg.baseSnoop && (p1Head s).baseWait && headBase cfg s i.wake then
    i.wakeEarlyValue + (p1Head s).offset
  else if cfg.baseSnoop && (p1Head s).baseWait && headBase cfg s i.wake1 then
    i.wake1EarlyValue + (p1Head s).offset
  else (p1Head s).ea

/-- `head_fast`. -/
def headFast : Bool :=
  if !cfg.baseSnoop || !(p1Head s).baseWait then (p1Head s).fast
  else intFast (p1Head s).uop.memSize (headEa cfg s i) &&
    !intTrap cfg (p1Head s).uop.memSize (headEa cfg s i) i.dr

/-- The address of an access with this EA. -/
def accessAddr (ea : BitVec 32) (munge : BitVec 3) : BitVec 32 :=
  ea.extractLsb' 3 29 ++ BitVec.ofBool (ea.getLsbD 2 ^^ munge.getLsbD 2) ++ 0#2

/-- `p1_addr`. -/
def p1Addr : BitVec 32 := accessAddr (headEa cfg s i) (p1Head s).munge

/-- `chk_addr_o`: a head that may queue has its EA registered. -/
def chkAddr : BitVec 32 := accessAddr (p1Head s).ea (p1Head s).munge

/-! ## The store queue's view of the head -/

/-- The bits of an address that are compared, `[11:3]`. -/
def dword (a : BitVec 32) : BitVec 9 := a.extractLsb' 3 9

/-- `sq_live`. -/
def sqLive : Bool := s.sq.any fun e => !e.killed

/-- `sq_overlap`. -/
def sqOverlap : Bool := s.sq.any fun e => !e.killed && dword e.addr = dword (p1Addr cfg s i)

/-- `sq_overlap_reg`. -/
def sqOverlapReg : Bool := s.sq.any fun e => !e.killed && dword e.addr = dword (p1Head s).ea

/-- `p2_passed`. -/
def p2Passed : Bool := s.p2.any fun e => e.passed && !e.killed

/-- `sq_young`. -/
def sqYoung : Bool := s.sq.any fun e => !e.killed && e.young && p2Passed s

/-- `load_ready`. -/
def loadReady : Bool := !(p1Head s).fp || (!(p1Head s).hold && (p1Head s).launched)

/-- The store queue is full. -/
def sqFull : Bool := s.sq.length = cfg.sqDepth

/-- `load_first`. -/
def loadFirst : Bool :=
  p1Valid s && !(p1Head s).store && !(p1Head s).killed && !s.offered && !s.sqOffered &&
    !(p1Head s).baseWait && (p1Head s).fast && loadReady s && !sqOverlapReg s && !sqYoung s &&
    s.redo.isNone && !sqFull cfg s

/-! ## Offers -/

/-- `sq_offer`. -/
def sqOffer : Bool :=
  cfg.storeQueue && i.rstN && sqValid s &&
    ((sqHead s).committed || (i.commitMem && (sqHead s).producer = i.commitTag)) &&
    !(sqHead s).killed && i.laneIdle && !s.rspToLane && s.p2.length ≠ 2 &&
    !(s.offered && !s.offeredSpec) && !loadFirst cfg s

/-- `sq_fire`. -/
def sqFire : Bool := sqOffer cfg s i && i.reqReady

/-- `sq_drop`. -/
def sqDrop : Bool := sqValid s && (sqHead s).killed

/-- `rsp_owner_o`. -/
def rspOwner : Bool := p2Valid s && !s.rspToLane

/-- `rsp_mine`. -/
def rspMine : Bool := rspOwner s && i.rspValid

/-- `rsp_ok`. -/
def rspOk : Bool := !i.rspError && i.rspFault = .ok

/-- `conv_load`. -/
def convLoad : Bool :=
  cfg.fpSingleDenorm && p2Valid s && !s.rspToLane && i.rspValid && (p2Head s).fp &&
    !(p2Head s).store && !(p2Head s).wide && !(p2Head s).split && !(p2Head s).killed && rspOk i

/-- `conv_load_cycles`. -/
def convLoadCycles : BitVec 5 :=
  if convLoad cfg s i then fpSingleDenormCycles (i.rspRdata.extractLsb' 0 32) else 0

/-- `conv_load_wait`. -/
def convLoadWait : Bool := s.convLoad ≠ convLoadCycles cfg s i

/-- `rsp_ready_o`. -/
def rspReady : Bool :=
  rspOwner s && !(convLoad cfg s i && convLoadWait cfg s i) &&
    ((p2Head s).killed || rspOk i || (p2Head s).fp || (p2Head s).write || (p2Head s).passed)

/-- `p2_retire`. -/
def p2Retire : Bool := rspMine s i && rspReady cfg s i

/-- `p2_live`. -/
def p2Live : Bool := !(p2Head s).killed && !killedNow i (p2Head s).producer

/-- `p2_result`. -/
def p2Result : Bool :=
  p2Retire cfg s i && !(p2Head s).write && p2Live s i && (rspOk i || (p2Head s).fp)

/-- `fp_fault`. -/
def fpFault : Bool := p2Retire cfg s i && (p2Head s).fp && !rspOk i && p2Live s i

/-- `redo_set`. -/
def redoSet : Bool :=
  p2Retire cfg s i && !(p2Head s).fp && (p2Head s).passed && !rspOk i && p2Live s i

/-- `store_error_o`. -/
def storeError : Bool := p2Retire cfg s i && (p2Head s).write && !rspOk i

/-- The store in Q is not removed. -/
def qLive (e : Entry) : Bool := !e.killed && !killedNow i e.producer

/-- `q_go`. -/
def qGo : Bool := s.q.any fun e => qLive i e && !p2Result cfg s i

/-- `q_pop`. -/
def qPop : Bool := s.q.any fun e => !qLive i e || !p2Result cfg s i

/-- `p1_check`. -/
def p1Check : Bool :=
  cfg.storeQueue && p1Valid s && (p1Head s).store && (p1Head s).fast && !(p1Head s).split &&
    !(p1Head s).killed && !s.offered && p1Ready cfg s i && i.laneIdle && !s.rspToLane &&
    s.redo.isNone && (s.q.isNone || qPop cfg s i) && !sqFull cfg s &&
    !killedNow i (p1Head s).producer

/-- `p1_queue`. -/
def p1Queue : Bool := p1Check cfg s i && i.chkOk

/-- `offer`. -/
def offer : Bool :=
  i.rstN && p1Valid s && headFast cfg s i && headBaseReady cfg s i && !sqOffer cfg s i &&
    (if (p1Head s).killed then s.offered && !s.offeredSpec
    else s.offered || (i.laneIdle && !s.rspToLane && s.redo.isNone && s.p2.length ≠ 2 &&
      p1Ready cfg s i &&
      (if (p1Head s).store then p1AtHead s i && !sqValid s && !p1Queue cfg s i
      else !sqOverlap cfg s i && !sqYoung s)))

/-- `p1_fire`. -/
def p1Fire : Bool := offer cfg s i && i.reqReady

/-- `p1_drop`. -/
def p1Drop : Bool := p1Valid s && (p1Head s).killed && !offer cfg s i

/-- `p1_punt`. -/
def p1Punt : Bool :=
  p1Valid s && (p1Head s).fp && !(p1Head s).fast && !(p1Head s).killed && (p1Head s).launched &&
    !p2Valid s && s.q.isNone && !s.rspToLane && s.redo.isNone &&
    !killedNow i (p1Head s).producer

/-- `req_spec_o`. -/
def reqSpec : Bool :=
  !sqOffer cfg s i && (sqLive s || (p1Head s).bspec ||
    s.p2.any fun e => !e.killed && !e.write && e.producer ≠ (p1Head s).producer)

/-! ## Store data -/

/-- `p1_nbytes`. -/
def p1Nbytes : ℕ := if (p1Head s).fp then 4 else nbytes (p1Head s).uop.memSize

/-- The byte offset of the head within its word. -/
def headOffset : ℕ :=
  ((headEa cfg s i).extractLsb' 0 2 ^^^ (p1Head s).munge.extractLsb' 0 2).toNat

/-- `store_source`. -/
def storeSource : BitVec 32 :=
  if (p1Head s).uop.memReverse then swapBytes (headData s i) (p1Nbytes s) else headData s i

/-- `p1_wdata`. -/
def p1Wdata : BitVec 64 :=
  if (p1Head s).fp then
    if (p1Head s).store then
      if (p1Head s).wide then i.fpStoreData
      else if (p1Head s).split && !(p1Head s).second then
        0#32 ++ i.fpStoreData.extractLsb' 32 32
      else 0#32 ++ i.fpStoreData.extractLsb' 0 32
    else 0
  else 0#32 ++ (storeSource s i <<< (8 * (4 - p1Nbytes s))) >>> (8 * headOffset cfg s i)

/-- `p1_wstrb`. -/
def p1Wstrb : BitVec 8 :=
  if (p1Head s).fp then if (p1Head s).wide then 0xff else 0x0f
  else 0#4 ++ (laneMask (p1Head s).uop.memSize >>> headOffset cfg s i)

/-! ## The request port -/

/-- `req_valid_o`. -/
def reqValid : Bool := offer cfg s i || sqOffer cfg s i

/-- What a request asks of the port. -/
structure Request where
  write : Bool
  addr : BitVec 32
  wdata : BitVec 64
  wstrb : BitVec 8
  deriving DecidableEq, Repr

/-- `req_write_o`, `req_addr_o`, `req_wdata_o` and `req_wstrb_o`. -/
def request : Request where
  write := sqOffer cfg s i || (p1Head s).store
  addr := if sqOffer cfg s i then (sqHead s).addr else p1Addr cfg s i
  wdata := if sqOffer cfg s i then (sqHead s).wdata else p1Wdata cfg s i
  wstrb := if sqOffer cfg s i then (sqHead s).wstrb else p1Wstrb cfg s i

/-! ## Load data -/

/-- `load_value`. -/
def loadValue : BitVec 32 :=
  let n := nbytes (p2Head s).uop.memSize
  let off := ((p2Head s).ea.extractLsb' 0 2 ^^^ (p2Head s).munge.extractLsb' 0 2).toNat
  let mask : BitVec 32 :=
    0xff#8 ++ (if n ≠ 1 then 0xff#8 else 0#8) ++ (if n = 4 then 0xffff#16 else 0#16)
  let left := (i.rspRdata.extractLsb' 0 32 <<< (8 * off)) &&& mask
  let right := left >>> (8 * (4 - n))
  if (p2Head s).uop.memReverse then swapBytes right n
  else if (p2Head s).uop.memSigned then (right.extractLsb' 0 16).signExtend 32
  else right

/-! ## Adoption and removal -/

/-- `p2_adopt`. -/
def p2Adopt : Bool :=
  rspMine s i && !(p2Head s).fp && !(p2Head s).write && !(p2Head s).passed &&
    !(p2Head s).bspec && p2Live s i && !rspOk i && s.r.isNone && i.laneIdle

/-- `redo_adopt`. -/
def redoAdopt : Bool :=
  (s.redo.any fun e => !e.killed && !e.bspec && !killedNow i e.producer) && !p2Valid s &&
    s.q.isNone && s.r.isNone && !sqValid s && i.laneIdle && !s.rspToLane

/-- `p1_adopt`. -/
def p1Adopt : Bool :=
  !p2Valid s && s.q.isNone && s.r.isNone && !sqValid s && s.redo.isNone && p1Valid s &&
    !(p1Head s).fast && !(p1Head s).baseWait && !(p1Head s).fp && !(p1Head s).bspec &&
    headDataReady s i && !(p1Head s).killed && !killedNow i (p1Head s).producer && i.laneIdle &&
    !s.rspToLane

/-- `adopt_fire`. -/
def adoptFire : Bool := (p2Adopt s i || redoAdopt s i || p1Adopt s i) && i.adoptReady

/-- `doom`: a faulting access, or one this unit cannot perform, removes everything
behind it. -/
def doom : Bool :=
  (adoptFire s i && p2Adopt s i) || fpFault cfg s i || p1Punt s i || redoSet cfg s i

/-- `sq_doom`: queued stores are younger than a faulting access that did not pass
them. -/
def sqDoom : Bool :=
  (adoptFire s i && p2Adopt s i) || (fpFault cfg s i && !(p2Head s).passed)

/-- The stores behind a passing load go with it. -/
def youngDoom : Bool := redoSet cfg s i || fpFault cfg s i

/-! ## Dispatch -/

/-- `in_wide`. -/
def inWide : Bool := cfg.dmemBits = 64 && i.fp && i.fpDouble && i.ea.extractLsb' 0 3 = 0

/-- `in_split`: a doubleword the port cannot move at once takes two P1 entries. -/
def inSplit : Bool := i.fp && i.fpDouble && !inWide cfg i

/-- `dispatch_ready_o`. -/
def dispatchReady : Bool := if inSplit cfg i then s.p1.isEmpty else s.p1.length ≠ 2

/-- `dispatch_fire`. -/
def dispatchFire : Bool := i.dispatchValid && dispatchReady cfg s i

/-- `BASE_ANY`. -/
def Config.baseAny : Bool := cfg.baseSnoop || cfg.baseWait

/-- `incoming`. -/
def incoming : Entry :=
  let bytes := nbytes i.uop.memSize
  let fast :=
    if i.fp then i.ea.extractLsb' 0 2 = 0 && !(i.le && i.fpDouble && i.ea.getLsbD 2)
    else (i.uop.specialOp = .load || i.uop.specialOp = .store) && intFast i.uop.memSize i.ea
  let baseWait := cfg.baseAny && i.baseSnoop && !i.base.ready
  let trap := !baseWait && cfg.baseAny && i.baseSnoop && intTrap cfg i.uop.memSize i.ea i.dr
  { serial := s.serials
    killed := false
    fast := fast && !baseWait && !trap
    store := if i.fp then i.fpStore else i.uop.specialOp = .store
    fp := i.fp
    launched := false
    wide := inWide cfg i
    hold := cfg.fpDoubleHold && inWide cfg i
    split := inSplit cfg i
    second := false
    advance := false
    dataReady := i.fp || i.uop.specialOp ≠ .store || i.data.ready
    dataLate := false
    baseLate := false
    dataTag := i.data.tag
    dataProducer := i.data.producer
    write := false
    passed := false
    bspec := i.branchSpec
    baseWait := baseWait
    baseTag := i.base.tag
    baseProducer := i.base.producer
    offset := i.offset
    producer := i.producer
    ea := i.ea
    data := i.data.value
    pc := i.pc
    insn := i.insn
    munge :=
      if !i.le then 0
      else if i.fp then BitVec.ofBool (!i.fpDouble) ++ 0#2
      else 1#1 ++ BitVec.ofBool (bytes ≠ 4) ++ BitVec.ofBool (bytes = 1)
    uop := if trap then { i.uop with specialOp := .alignment, gprWrite := false } else i.uop }

/-- The P1 entries of the access being dispatched. -/
def dispatched : List Entry :=
  if dispatchFire cfg s i then
    incoming cfg s i ::
      if inSplit cfg i then [{ incoming cfg s i with second := true, advance := true }] else []
  else []

/-! ## The clock edge of P1 and P2 -/

/-- The wake that writes a source of a waiting access; the first port wins. -/
def wakeOf (tag : BitVec 3) (producer : CompletionTag) : Option Wake :=
  if i.wake.valid && i.wake.tag = tag && i.wake.producer = producer then some i.wake
  else if i.wake1.valid && i.wake1.tag = tag && i.wake1.producer = producer then some i.wake1
  else none

/-- `p1_pop`. -/
def p1Pop : Bool :=
  p1Fire cfg s i || p1Queue cfg s i || p1Drop cfg s i || p1Punt s i ||
    (adoptFire s i && !p2Adopt s i && !redoAdopt s i)

/-- The second beat reaching the head moves to the next word. -/
def Entry.advanced (e : Entry) : Entry :=
  if e.advance then
    { e with ea := (e.ea.extractLsb' 2 30 + 1) ++ e.ea.extractLsb' 0 2, advance := false }
  else e

/-- P1 after the shift. -/
def p1Shifted : List Entry :=
  if p1Pop cfg s i then
    match s.p1.tail with
    | [] => []
    | e :: rest => e.advanced :: rest
  else
    match s.p1 with
    | [] => []
    | e :: rest => { e with hold := false } :: rest

/-- Store data a wake writes. -/
def Entry.takeData (e : Entry) : Entry :=
  if e.dataLate then { e with dataReady := true, dataLate := false }
  else if e.dataReady then e
  else
    match wakeOf i e.dataTag e.dataProducer with
    | some w => { e with data := w.value, dataReady := !w.late, dataLate := w.late }
    | none => e

/-- A base a wake writes forms the EA; an alignment exception goes to the lane with
the access. -/
def Entry.takeBase (e : Entry) : Entry :=
  if e.baseLate then { e with baseWait := false, baseLate := false }
  else if cfg.baseAny && e.baseWait then
    match wakeOf i e.baseTag e.baseProducer with
    | some w =>
      let ea := w.value + e.offset
      let trap := intTrap cfg e.uop.memSize ea i.dr
      { e with
        baseWait := w.late
        baseLate := w.late
        ea := ea
        fast := intFast e.uop.memSize ea && !trap
        uop := if trap then { e.uop with specialOp := .alignment, gprWrite := false } else e.uop }
    | none => e
  else e

/-- A P1 entry over the edge. -/
def p1Next (e : Entry) : Entry :=
  Entry.takeBase cfg i (Entry.takeData i
    { e with
      killed := e.killed || doom cfg s i || killedNow i e.producer
      bspec := e.bspec && !i.branchResolved
      launched := e.launched || (i.fpLaunchValid && e.producer = i.fpLaunchTag) })

/-- `pushed`: what the port has accepted. -/
def pushed : Entry :=
  if sqFire cfg s i then
    { (default : Entry) with
      serial := (sqHead s).serial
      write := true
      fast := true
      producer := (sqHead s).producer }
  else
    { p1Head s with
      ea := headEa cfg s i
      fast := headFast cfg s i
      baseWait := false
      baseLate := false
      data := headData s i
      dataReady := true
      dataLate := false
      passed := sqLive s }

/-- P2 after the shift. -/
def p2Shifted : List Entry :=
  (if p2Retire cfg s i || (adoptFire s i && p2Adopt s i) then s.p2.tail else s.p2) ++
    (if p1Fire cfg s i || sqFire cfg s i then [pushed cfg s i] else [])

/-- A P2 entry over the edge: a retired store's write is never removed. -/
def p2Next (e : Entry) : Entry :=
  { e with
    killed := e.killed || (!e.write && (doom cfg s i || killedNow i e.producer))
    bspec := e.bspec && !i.branchResolved }

/-! ## The clock edge of the store queue -/

/-- `added`: the store being queued. -/
def added : SqEntry where
  serial := (p1Head s).serial
  committed := false
  killed := false
  producer := (p1Head s).producer
  addr := chkAddr s
  wdata := p1Wdata cfg s i
  wstrb := p1Wstrb cfg s i
  bytes := p1Nbytes s
  fp := (p1Head s).fp
  young := p2Passed s

/-- The store queue after the shift. -/
def sqShifted : List SqEntry :=
  (if sqFire cfg s i || sqDrop s then s.sq.tail else s.sq) ++
    (if p1Queue cfg s i then [added cfg s i] else [])

/-- A queued store over the edge: removal, then retirement, then the cancellation
by a failed write. -/
def sqNext (e : SqEntry) : SqEntry :=
  let killed := e.killed || (!e.committed &&
    (sqDoom cfg s i || killedNow i e.producer || (e.young && youngDoom cfg s i)))
  let committed := e.committed || (!killed && i.commit && e.producer = i.commitTag)
  { e with
    killed := killed || (committed && storeError cfg s i)
    young := e.young && p2Passed s
    committed := committed }

/-- The next Q. -/
def qNext : Option Entry :=
  if p1Queue cfg s i then some (p1Head s)
  else if qPop cfg s i then none
  else s.q.map fun e =>
    { e with killed := e.killed || sqDoom cfg s i || killedNow i e.producer ||
        (s.qYoung && youngDoom cfg s i) }

/-- The next redo slot. -/
def redoNext : Option Entry :=
  if redoSet cfg s i then
    some { p2Head s with fast := false, bspec := (p2Head s).bspec && !i.branchResolved }
  else if adoptFire s i && redoAdopt s i then none
  else
    (s.redo.filter fun e => !e.killed && !killedNow i e.producer).map fun e =>
      { e with bspec := e.bspec && !i.branchResolved }

/-! ## The results -/

/-- The next R. -/
def rNext : Option Result :=
  if p2Result cfg s i && !(p2Head s).fp then
    some ⟨(p2Head s).serial, (p2Head s).producer, loadValue s i, (p2Head s).ea,
      (p2Head s).store && !(p2Head s).uop.memUpdate⟩
  else if qGo cfg s i then
    (s.q.filter fun e => !e.fp).map fun e =>
      ⟨e.serial, e.producer, 0, e.ea, e.store && !e.uop.memUpdate⟩
  else none

/-- A doubleword answers after its second beat. -/
def lastBeat (e : Entry) : Bool := !e.split || e.second

/-- The next answer to the FPU. -/
def rFpNext : Option FpAnswer :=
  if p1Punt s i then some ⟨(p1Head s).serial, (p1Head s).producer, true, 0⟩
  else if fpFault cfg s i || (p2Result cfg s i && (p2Head s).fp && lastBeat (p2Head s)) then
    some ⟨(p2Head s).serial, (p2Head s).producer, !rspOk i,
      if (p2Head s).wide then i.rspRdata
      else if (p2Head s).split then s.beat0 ++ i.rspRdata.extractLsb' 0 32
      else 0#32 ++ i.rspRdata.extractLsb' 0 32⟩
  else if qGo cfg s i then
    (s.q.filter fun e => e.fp && lastBeat e).map fun e => ⟨e.serial, e.producer, false, 0⟩
  else none

/-- A conversion counter over the edge. -/
def convNext (count cycles : BitVec 5) : BitVec 5 :=
  if cycles = 0 then 0 else if count ≠ cycles then count + 1 else count

/-! ## One clock edge -/

/-- The registers after an edge in reset. -/
def resetState : State where
  p1 := []
  p2 := []
  sq := []
  q := none
  qYoung := false
  redo := none
  r := none
  rFp := none
  rspToLane := false
  offered := false
  offeredSpec := false
  sqOffered := false
  beat0 := 0
  convStore := 0
  convLoad := 0
  serials := 0

/-- One clock edge. -/
def step : State :=
  if !i.rstN then resetState
  else
    { p1 := (p1Shifted cfg s i ++ dispatched cfg s i).map (p1Next cfg s i)
      p2 := (p2Shifted cfg s i).map (p2Next cfg s i)
      sq := if cfg.storeQueue then (sqShifted cfg s i).map (sqNext cfg s i) else []
      q := if cfg.storeQueue then qNext cfg s i else none
      qYoung := if p1Queue cfg s i then p2Passed s else s.qYoung
      redo := if cfg.storeQueue then redoNext cfg s i else none
      r := rNext cfg s i
      rFp := rFpNext cfg s i
      rspToLane :=
        (adoptFire s i && p2Adopt s i) || (s.rspToLane && !(i.rspValid && i.laneRspReady))
      offered := offer cfg s i && !i.reqReady
      offeredSpec := offer cfg s i && !i.reqReady && reqSpec cfg s i
      sqOffered := sqOffer cfg s i && !i.reqReady
      beat0 :=
        if p2Retire cfg s i && (p2Head s).split && !(p2Head s).second then
          i.rspRdata.extractLsb' 0 32
        else s.beat0
      convStore := convNext s.convStore (convStoreCycles cfg s i)
      convLoad := convNext s.convLoad (convLoadCycles cfg s i)
      serials := s.serials + (dispatchFire cfg s i).toNat }

end Signals

/-- The unit as a clocked machine, started by an edge in reset. -/
def machine (cfg : Config) : Clocked.Machine State Input where
  Initial := fun s => s = resetState
  step := step cfg

end Lsu
end SloPPC603
