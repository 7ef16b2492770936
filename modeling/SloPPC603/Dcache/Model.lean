import Mathlib.Algebra.Group.Nat.Defs
import SloPPC603.Clocked.Machine

/-!
# The data cache

The registers, combinational signals and clock edge of `ppc_dcache.sv`, for any
number of sets and ways that is a power of two, with or without fast load hits.

An address is a 32-bit word; the line, set, tag and double word it names are
natural numbers.  A vector with a bit for each way is a function of the way, read
only below the number of ways.  A double word is a 64-bit word and a line four of
them by index; the most significant quarter of a 256-bit bus word is index zero.

The RAM arrays are functions of their address.  The data array's read is
registered and gives what the array held before the edge, as the simulation
branch of `ppc_ram_sdp_be.sv` does.  The bench's `MUTATION` parameter is zero.
-/

namespace SloPPC603
namespace Dcache

/-! ## Operations and transfer types -/

/-- `dc_op_e`; a code the package does not define is `reserved`. -/
inductive DcOp
  | load
  | store
  | lwarx
  | stwcx
  | dcbz
  | dcbf
  | dcbst
  | dcbi
  | dcbt
  | dcbtst
  | sync
  | reserved
  deriving DecidableEq, Repr, Inhabited

/-- `dc_bus_kind_e`. -/
inductive BusKind
  | readBurst
  | readSingle
  | writeBurst
  | writeSingle
  | addrOnly
  deriving DecidableEq, Repr

namespace TT

/-! The 60x transfer types of `ppc_dcache_pkg.sv`. -/

def clean : BitVec 5 := 0b00000#5
def flush : BitVec 5 := 0b00100#5
def kill : BitVec 5 := 0b01100#5
def writeFlush : BitVec 5 := 0b00010#5
def writeKill : BitVec 5 := 0b00110#5
def read : BitVec 5 := 0b01010#5
def rwitm : BitVec 5 := 0b01110#5
def writeFlushAtom : BitVec 5 := 0b10010#5
def readAtom : BitVec 5 := 0b11010#5
def rwitmAtom : BitVec 5 := 0b11110#5
def readNoCache : BitVec 5 := 0b01011#5

end TT

/-- The WIMG bits of an access. -/
structure Wimg where
  w : Bool
  i : Bool
  m : Bool
  g : Bool
  deriving DecidableEq, Repr, Inhabited

/-! ## States -/

/-- `dc_state_e`. -/
inductive DcState
  | idle
  | lookup
  | readData
  | cobRead
  | cobReq
  | addrReq
  | addrWait
  | fillReq
  | fillWait
  | sreadReq
  | sreadWait
  | zero
  | storeWrite
  | swriteReq
  | install
  | syncWait
  deriving DecidableEq, Repr, Inhabited

/-- `push_state_e`. -/
inductive PushState
  | idle
  | read
  | req
  | wait
  deriving DecidableEq, Repr, Inhabited

/-- `snoop_class_e`. -/
inductive SnoopClass
  | none
  | clean
  | flush
  | kill
  deriving DecidableEq, Repr, Inhabited

/-- The plan word: one bit for each step, in execution order. -/
structure Plan where
  cob : Bool := false
  addr : Bool := false
  fill : Bool := false
  sread : Bool := false
  zero : Bool := false
  store : Bool := false
  swrite : Bool := false
  install : Bool := false
  deriving DecidableEq, Repr, Inhabited

/-- The empty plan. -/
def Plan.none : Plan := {}

/-- `first_step`. -/
def firstStep (plan : Plan) : DcState :=
  if plan.cob then .cobRead
  else if plan.addr then .addrReq
  else if plan.fill then .fillReq
  else if plan.sread then .sreadReq
  else if plan.zero then .zero
  else if plan.store then .storeWrite
  else if plan.swrite then .swriteReq
  else if plan.install then .install
  else .idle

/-! ## Parameters, inputs and registers -/

/-- The module's parameters; `SET_COUNT` and `WAY_COUNT` by their widths. -/
structure Config where
  fastLoadHit : Bool
  setBits : ℕ
  wayBits : ℕ
  deriving DecidableEq, Repr

namespace Config

/-- `SET_COUNT`. -/
def setCount (cfg : Config) : ℕ := 2 ^ cfg.setBits

/-- `WAY_COUNT`. -/
def wayCount (cfg : Config) : ℕ := 2 ^ cfg.wayBits

end Config

/-- The inputs of one cycle. -/
structure Input where
  rstN : Bool := true
  reqValid : Bool := false
  reqOp : DcOp := .load
  reqAddr : BitVec 32 := 0
  reqBe : BitVec 8 := 0
  reqWdata : BitVec 64 := 0
  reqWimg : Wimg := default
  rspReady : Bool := false
  hid0Dce : Bool := false
  hid0Dlock : Bool := false
  hid0Dcfi : Bool := false
  hid0Noopti : Bool := false
  hid0Abe : Bool := false
  teaPending : Bool := false
  busReqReady : Bool := false
  busReqAcked : Bool := false
  busRdValid : Bool := false
  busRdData : BitVec 64 := 0
  busRdError : Bool := false
  busWrDone : Bool := false
  busWrError : Bool := false
  pushReqReady : Bool := false
  pushDone : Bool := false
  pushError : Bool := false
  snoopValid : Bool := false
  snoopAddr : BitVec 32 := 0
  snoopTt : BitVec 5 := 0
  snoopBurst : Bool := false
  snoopProbe : Bool := false

/-- The response registers. -/
structure Response where
  valid : Bool := false
  error : Bool := false
  align : Bool := false
  ok : Bool := false
  data : BitVec 64 := 0
  deriving DecidableEq, Repr, Inhabited

/-- The registers and the RAM arrays. -/
structure State where
  state : DcState
  pushSt : PushState
  reqOp : DcOp
  reqAddr : BitVec 32
  reqBe : BitVec 8
  reqWdata : BitVec 64
  reqWimg : Wimg
  plan : Plan
  way : ℕ
  addrTt : BitVec 5
  installDirty : Bool
  ci : Bool
  stwcxOk : Bool
  rspSent : Bool
  stepIdx : ℕ
  cobValid : Bool
  cobCap : Bool
  cobLine : ℕ
  cobWay : ℕ
  cobCapIdx : ℕ
  cobData : ℕ → BitVec 64
  pushIdx : ℕ
  pushCapIdx : ℕ
  pushCap : Bool
  pushWay : ℕ
  pushLine : ℕ
  pushData : ℕ → BitVec 64
  snpValid : Bool
  snpAddr : BitVec 32
  snpTt : BitVec 5
  snpBurst : Bool
  snpProbe : Bool
  snpRspValid : Bool
  snpRspArtry : Bool
  snpRspHit : Bool
  snpRspPush : Bool
  resvValid : Bool
  resvLine : ℕ
  wqCount : ℕ
  wqCob : ℕ → Bool
  setValid : ℕ → Bool
  rsp : Response
  hitEvt : Bool
  missEvt : Bool
  asyncError : Bool
  protocolError : Bool
  dce : Bool
  earlyData : Bool
  fwd : Bool
  fwdWay : ℕ → Bool
  fwdBe : BitVec 8
  fwdWdata : BitVec 64
  -- The registered lookup: the owner's set and tag, and the RAMs read there.
  rdSet : ℕ
  rdTag : ℕ
  tag : ℕ → ℕ
  vld : ℕ → Bool
  drt : ℕ → Bool
  hitw : ℕ → Bool
  dataRdata : ℕ → BitVec 64
  -- The arrays: tags and data by way, set (and double word); the state word by set.
  tagRam : ℕ → ℕ → ℕ
  stValid : ℕ → ℕ → Bool
  stDirty : ℕ → ℕ → Bool
  lruRam : ℕ → ℕ → ℕ
  dataRam : ℕ → ℕ → ℕ → BitVec 64
  deriving Inhabited

/-! ## Address fields -/

/-- Address bits 31:5. -/
def lineOf (addr : BitVec 32) : ℕ := addr.toNat / 32

/-- The double word of its line an address names. -/
def dwOf (addr : BitVec 32) : ℕ := addr.toNat / 8 % 4

/-- The set of a line. -/
def Config.setOf (cfg : Config) (line : ℕ) : ℕ := line % cfg.setCount

/-- The tag of a line. -/
def Config.tagOf (cfg : Config) (line : ℕ) : ℕ := line / cfg.setCount

/-- `{tag, set}`. -/
def Config.lineAt (cfg : Config) (tag set : ℕ) : ℕ := tag * cfg.setCount + set

/-! ## Bytes of a double word -/

/-- The mask of the bytes `be` enables. -/
def byteMask (be : BitVec 8) : BitVec 64 :=
  let lane (k : ℕ) : BitVec 8 := if be.getLsbD k then 0xff#8 else 0x00#8
  lane 7 ++ lane 6 ++ lane 5 ++ lane 4 ++ lane 3 ++ lane 2 ++ lane 1 ++ lane 0

/-- `old` with the enabled bytes taken from `new`. -/
def mergeBytes (be : BitVec 8) (new old : BitVec 64) : BitVec 64 :=
  (old &&& ~~~ byteMask be) ||| (new &&& byteMask be)

section Signals

variable (cfg : Config) (s : State) (i : Input)

/-- `req_line`. -/
def reqLine : ℕ := lineOf s.reqAddr

/-- `req_set`. -/
def reqSet : ℕ := cfg.setOf (reqLine s)

/-- `req_tag`. -/
def reqTag : ℕ := cfg.tagOf (reqLine s)

/-- `req_dw`. -/
def reqDw : ℕ := dwOf s.reqAddr

/-! ## The registered lookup -/

/-- `hit`. -/
def hit : Bool := (List.range cfg.wayCount).any s.hitw

/-- `hdirty`. -/
def hdirty : Bool := (List.range cfg.wayCount).any (fun w => s.hitw w && s.drt w)

/-- `any_valid`. -/
def anyValid : Bool := (List.range cfg.wayCount).any s.vld

/-- `hway`: the numbers of the hit ways, or-ed together. -/
def hway : ℕ :=
  (List.range cfg.wayCount).foldl (fun acc w => if s.hitw w then acc ||| w else acc) 0

/-- `lru_rdata`. -/
def lruRdata : ℕ → ℕ := s.lruRam s.rdSet

/-- `victim`: the lowest invalid way, else the least recently used. -/
def victim : ℕ :=
  if (List.range cfg.wayCount).all s.vld then
    ((List.range cfg.wayCount).find? (fun w => lruRdata s w = cfg.wayCount - 1)).getD 0
  else ((List.range cfg.wayCount).find? (fun w => !s.vld w)).getD 0

/-- `lru_touch`. -/
def lruTouch (ranks : ℕ → ℕ) (way : ℕ) (w : ℕ) : ℕ :=
  if w = way then 0
  else if ranks w < ranks way then (ranks w + 1) % cfg.wayCount else ranks w

/-- `LRU_SEED`. -/
def lruSeed (w : ℕ) : ℕ := w

/-- `hit_data`: the hit way's word, with the bytes a fast store wrote to that way
on the reading edge. -/
def hitData : BitVec 64 :=
  (List.range cfg.wayCount).foldl (fun acc w =>
    acc ||| if s.hitw w then
      (if s.fwdWay w then mergeBytes (if s.fwd then s.fwdBe else 0) s.fwdWdata (s.dataRdata w)
        else s.dataRdata w) else 0) 0

/-! ## Snoops -/

/-- `push_busy`. -/
def pushBusy : Bool := s.pushSt ≠ .idle

/-- `fsm_owns`: the operation in progress is past its lookup. -/
def fsmOwns : Bool := s.state ≠ .idle && s.state ≠ .lookup && s.state ≠ .syncWait

/-- `can_push`. -/
def canPush : Bool := !pushBusy s && s.state ≠ .cobRead

/-- `fsm_claims`: the operation in progress has claimed its line. -/
def fsmClaims : Bool :=
  fsmOwns s && (s.reqOp = .stwcx ||
    (s.state ≠ .addrReq && s.state ≠ .fillReq && s.state ≠ .sreadReq && s.state ≠ .swriteReq &&
      s.state ≠ .cobRead && s.state ≠ .cobReq &&
      (i.busReqAcked ||
        (s.state ≠ .addrWait && s.state ≠ .fillWait && s.state ≠ .sreadWait))))

/-- `snp_line`. -/
def snpLine : ℕ := lineOf s.snpAddr

/-- `snp_class`; a burst read is snooped as a write. -/
def classOf (tt : BitVec 5) (burst : Bool) : SnoopClass :=
  if tt = TT.read ∨ tt = TT.readAtom then (if burst then .flush else .clean)
  else if tt = TT.readNoCache then .clean
  else if tt = TT.rwitm ∨ tt = TT.rwitmAtom ∨ tt = TT.writeFlush ∨ tt = TT.writeFlushAtom then
    .flush
  else if tt = TT.writeKill ∨ tt = TT.kill then .kill
  else .none

/-- `snp_class` of the registered snoop. -/
def snpClass : SnoopClass := classOf s.snpTt s.snpBurst

/-- `snp_cancel_type`; the low four bits of the type tell a read from a write. -/
def snpCancelType : Bool :=
  snpClass s = .kill ||
    (snpClass s = .flush && s.snpTt.setWidth 4 ≠ TT.read.setWidth 4)

/-- `snp_conflict`. -/
def snpConflict : Bool :=
  (s.cobValid && s.cobLine = snpLine s) || (pushBusy s && s.pushLine = snpLine s) ||
    (fsmClaims s i && reqLine s = snpLine s)

/-- The registered snoop is one the cache acts on. -/
def snpActs : Bool := s.snpValid && snpClass s ≠ .none

/-- The registered snoop looks its line up to change it: no conflict, no probe,
and a hit with the cache enabled. -/
def snpHits : Bool :=
  snpActs s && !snpConflict s i && !s.snpProbe && i.hid0Dce && hit cfg s

/-- `s_push`. -/
def sPush : Bool :=
  snpHits cfg s i && hdirty cfg s && snpClass s ≠ .kill && canPush s

/-- The registered snoop invalidates or discards its line without a push. -/
def sDrop : Bool :=
  snpHits cfg s i && !(hdirty cfg s && snpClass s ≠ .kill) && snpClass s ≠ .clean

/-- `s_artry`. -/
def sArtry : Bool :=
  snpActs s &&
    (if snpConflict s i then true
     else if s.snpProbe then i.hid0Dce && hit cfg s && (hdirty cfg s || snpClass s ≠ .clean)
     else i.hid0Dce && hit cfg s && hdirty cfg s && snpClass s ≠ .kill)

/-- `s_st_we`. -/
def sStWe : Bool := sPush cfg s i || sDrop cfg s i

/-- `s_valid`. -/
def sValid (w : ℕ) : Bool :=
  if sPush cfg s i && snpClass s = .flush && w = hway cfg s then false
  else if sDrop cfg s i && w = hway cfg s then false
  else s.vld w

/-- `s_dirty`. -/
def sDirty (w : ℕ) : Bool :=
  if (sPush cfg s i || sDrop cfg s i) && w = hway cfg s then false else s.drt w

/-- `s_resv_cancel`.  A `lwarx` whose read has not claimed its line reads after
the snoop. -/
def sResvCancel : Bool :=
  s.snpValid && snpCancelType s && !s.snpProbe && !sArtry cfg s i && s.resvValid &&
    s.resvLine = snpLine s &&
    !(fsmOwns s && !fsmClaims s i && s.reqOp = .lwarx && reqLine s = snpLine s)

/-! ## Lookup -/

/-- `cacheable`. -/
def cacheable : Bool := (if cfg.fastLoadHit then s.dce else i.hid0Dce) && !s.reqWimg.i

/-- `resv_match`. -/
def resvMatch : Bool := s.resvValid && s.resvLine = reqLine s

/-- `tea_blocks_load`. -/
def teaBlocksLoad : Bool :=
  (i.teaPending || s.asyncError) && (s.reqOp = .load || s.reqOp = .lwarx)

/-- What the lookup decides. -/
structure Lk where
  plan : Plan := .none
  way : ℕ
  stWe : Bool := false
  lruWe : Bool := false
  cob : Bool := false
  alloc : Bool := false
  cobLine : ℕ
  valid : ℕ → Bool
  dirty : ℕ → Bool
  rsp : Bool := false
  align : Bool := false
  ok : Bool := false
  err : Bool := false
  proto : Bool := false
  read : Bool := false
  sync : Bool := false
  resvSet : Bool := false
  resvClear : Bool := false
  installDirty : Bool := false
  ci : Bool := false
  addrTt : BitVec 5 := TT.clean
  hitEvt : Bool := false
  missEvt : Bool := false

/-- The lookup before its operation is looked at. -/
def lkDefault : Lk where
  way := hway cfg s
  cobLine := reqLine s
  valid := s.vld
  dirty := s.drt

/-- The vector with one way's bit set to `b`. -/
def setWay (v : ℕ → Bool) (way : ℕ) (b : Bool) (w : ℕ) : Bool := if w = way then b else v w

/-- The hit line leaves the cache: its state bits clear, and it is cast out when
`push` says so. -/
def lkInvalidate (push : Bool) (lk : Lk) : Lk :=
  { lk with
    stWe := true
    valid := setWay lk.valid (hway cfg s) false
    dirty := setWay lk.dirty (hway cfg s) false
    cob := push && hdirty cfg s }

/-- An inhibited access that hits pushes and invalidates its line. -/
def lkInhibited (lk : Lk) : Lk :=
  if i.hid0Dce && s.reqWimg.i && hit cfg s then lkInvalidate cfg s true lk else lk

/-- The copy-back write of a line that hits: it becomes modified. -/
def lkModify (lk : Lk) : Lk :=
  { lk with stWe := true, dirty := setWay lk.dirty (hway cfg s) true, lruWe := true }

/-- `DC_LOAD`, `DC_LWARX`. -/
def lkLoad : Lk :=
  let lk := { lkDefault cfg s with resvSet := s.reqOp = .lwarx }
  if cacheable cfg s i && hit cfg s then { lk with read := true, lruWe := true, hitEvt := true }
  else if cacheable cfg s i && !i.hid0Dlock then
    { lk with alloc := true, plan := { fill := true, install := true }, missEvt := true }
  -- Inhibited, disabled, or a miss in a locked cache.
  else { lkInhibited cfg s i lk with ci := true, plan := { sread := true } }

/-- `DC_STORE`, `DC_STWCX`. -/
def lkStore : Lk :=
  let lk := { lkDefault cfg s with resvClear := s.reqOp = .stwcx, ok := s.reqOp = .stwcx }
  if s.reqOp = .stwcx && !resvMatch s then { lk with rsp := true, ok := false }
  else if cacheable cfg s i && !s.reqWimg.w then
    if hit cfg s then { lkModify cfg s lk with plan := { store := true }, hitEvt := true }
    else if !i.hid0Dlock then
      { lk with
        alloc := true, plan := { fill := true, store := true, install := true }
        installDirty := true, missEvt := true }
    else { lk with ci := true, plan := { swrite := true } }
  else if cacheable cfg s i then
    -- Write-through: a hit on a modified line pushes it first and it stays modified.
    if hit cfg s then
      { lk with
        lruWe := true, cob := hdirty cfg s, plan := { store := true, swrite := true }
        hitEvt := true }
    else { lk with ci := i.hid0Dlock, plan := { swrite := true } }
  else { lkInhibited cfg s i lk with ci := true, plan := { swrite := true } }

/-- `DC_DCBZ`. -/
def lkDcbz : Lk :=
  let lk := lkDefault cfg s
  if s.reqWimg.w || s.reqWimg.i then { lk with rsp := true, align := true }
  else if hit cfg s then { lkModify cfg s lk with plan := { zero := true } }
  else if i.hid0Dlock then { lk with rsp := true, align := true }
  else
    { lk with
      alloc := true, plan := { addr := s.reqWimg.m, zero := true, install := true }
      addrTt := TT.kill, installDirty := true }

/-- `DC_DCBF`. -/
def lkDcbf : Lk :=
  let lk := lkDefault cfg s
  let lk := if hit cfg s then lkInvalidate cfg s true lk else lk
  { lk with
    plan := { addr := i.hid0Abe && s.reqWimg.m && !(hit cfg s && hdirty cfg s) }
    addrTt := TT.flush }

/-- `DC_DCBST`. -/
def lkDcbst : Lk :=
  let lk := lkDefault cfg s
  let lk := if hit cfg s && hdirty cfg s then
      { lk with stWe := true, dirty := setWay lk.dirty (hway cfg s) false, cob := true }
    else lk
  { lk with
    plan := { addr := i.hid0Abe && s.reqWimg.m && !(hit cfg s && hdirty cfg s) }
    addrTt := TT.clean }

/-- `DC_DCBI`. -/
def lkDcbi : Lk :=
  let lk := lkDefault cfg s
  let lk := if hit cfg s then lkInvalidate cfg s false lk else lk
  { lk with plan := { addr := i.hid0Abe && s.reqWimg.m }, addrTt := TT.kill }

/-- `DC_DCBT`, `DC_DCBTST`. -/
def lkTouch : Lk :=
  let lk := lkDefault cfg s
  if i.hid0Noopti || !i.hid0Dce || i.hid0Dlock || s.reqWimg.w || s.reqWimg.i || s.reqWimg.g then
    { lk with rsp := true }
  else if hit cfg s then { lk with lruWe := true, rsp := true }
  else { lk with alloc := true, plan := { fill := true, install := true } }

/-- The lookup by operation. -/
def lkOp : Lk :=
  match s.reqOp with
  | .load | .lwarx => lkLoad cfg s i
  | .store | .stwcx => lkStore cfg s i
  | .dcbz => lkDcbz cfg s i
  | .dcbf => lkDcbf cfg s i
  | .dcbst => lkDcbst cfg s i
  | .dcbi => lkDcbi cfg s i
  | .dcbt | .dcbtst => lkTouch cfg s i
  | .sync => { lkDefault cfg s with sync := true }
  | .reserved => { lkDefault cfg s with rsp := true, err := true, proto := true }

/-- An allocation takes the victim way and casts its line out if modified. -/
def lkAllocate (lk : Lk) : Lk :=
  if lk.alloc then
    { lk with
      way := victim cfg s
      stWe := true
      valid := setWay lk.valid (victim cfg s) false
      dirty := setWay lk.dirty (victim cfg s) false
      cob := s.drt (victim cfg s)
      cobLine := cfg.lineAt (s.tag (victim cfg s)) (reqSet cfg s) }
  else lk

/-- A castout is the first step of its plan. -/
def lkPlanCob (lk : Lk) : Lk := { lk with plan := { lk.plan with cob := lk.cob } }

/-- A load behind a failed tenure answers with the error. -/
def lkTea (lk : Lk) : Lk :=
  if teaBlocksLoad s i then
    { lk with
      plan := .none, stWe := false, lruWe := false, cob := false, alloc := false, read := false
      resvSet := false, hitEvt := false, missEvt := false, rsp := true, err := true }
  else lk

/-- The `lk_` signals. -/
def lk : Lk := lkTea s i (lkPlanCob (lkAllocate cfg s (lkOp cfg s i)))

/-- `lk_stall`. -/
def lkStall : Bool :=
  s.snpValid || s.pushSt = .read || ((lk cfg s i).cob && s.cobValid) ||
    (pushBusy s && s.pushLine = reqLine s)

/-- `lk_go`. -/
def lkGo : Bool := s.state = .lookup && !lkStall cfg s i

/-! ## Fast answers -/

/-- `lk_fast`: a load hit answers from its first lookup cycle. -/
def lkFast : Bool :=
  cfg.fastLoadHit && s.state = .lookup && s.reqOp = .load && s.dce && !s.reqWimg.i &&
    hit cfg s && s.earlyData && !s.snpValid && !teaBlocksLoad s i && s.pushSt ≠ .read &&
    !(pushBusy s && s.pushLine = reqLine s)

/-- `lk_fast_done`. -/
def lkFastDone : Bool := lkFast cfg s i && i.rspReady

/-- `lk_fast_st`: a copy-back store hit writes and answers in its lookup cycle. -/
def lkFastSt : Bool :=
  cfg.fastLoadHit && s.state = .lookup && s.reqOp = .store && cacheable cfg s i &&
    !s.reqWimg.w && hit cfg s && !s.snpValid && s.pushSt ≠ .read &&
    !(pushBusy s && s.pushLine = reqLine s)

/-- `lk_fast_st_done`. -/
def lkFastStDone : Bool := lkFastSt cfg s i && i.rspReady

/-- `lk_fast_st_dw`. -/
def lkFastStDw : Bool :=
  cfg.setOf (lineOf i.reqAddr) = reqSet cfg s && dwOf i.reqAddr = reqDw s

/-- `lk_fast_st_next`. -/
def lkFastStNext : Bool :=
  lkFastStDone cfg s i && (i.reqOp = .store || (s.earlyData && i.reqOp = .load))

/-- `req_ready_o`. -/
def reqReady : Bool :=
  i.rstN && !i.hid0Dcfi &&
    ((s.state = .idle && !s.rsp.valid) || lkFastDone cfg s i || lkFastStNext cfg s i)

/-- `req_accept`. -/
def reqAccept : Bool := i.reqValid && reqReady cfg s i

/-- `rsp_valid_o`. -/
def rspValid : Bool := s.rsp.valid || lkFast cfg s i || lkFastSt cfg s i

/-- `rsp_data_o`. -/
def rspData : BitVec 64 := if lkFast cfg s i then hitData cfg s else s.rsp.data

/-- The answer is taken. -/
def rspTaken : Bool := rspValid cfg s i && i.rspReady

/-! ## Bus requests -/

/-- `wq_full`. -/
def wqFull : Bool := s.wqCount = 4

/-- `bus_req_valid_o`. -/
def busReqValid : Bool :=
  match s.state with
  | .cobReq => !s.cobCap && !wqFull s
  | .addrReq => !wqFull s
  | .fillReq => true
  | .sreadReq => true
  | .swriteReq => !wqFull s
  | _ => false

/-- `bus_req_kind_o`. -/
def busReqKind : BusKind :=
  match s.state with
  | .cobReq => .writeBurst
  | .addrReq => .addrOnly
  | .sreadReq => .readSingle
  | .swriteReq => .writeSingle
  | _ => .readBurst

/-- `bus_req_tt_o`. -/
def busReqTt : BitVec 5 :=
  match s.state with
  | .cobReq => TT.writeKill
  | .addrReq => s.addrTt
  | .fillReq => if s.reqOp = .lwarx ∨ s.reqOp = .stwcx then TT.rwitmAtom else TT.rwitm
  | .sreadReq => if s.reqOp = .lwarx then TT.readAtom else TT.read
  | .swriteReq => if s.reqOp = .stwcx then TT.writeFlushAtom else TT.writeFlush
  | _ => TT.rwitm

/-- `bus_req_addr_o`. -/
def busReqAddr : BitVec 32 :=
  match s.state with
  | .cobReq => BitVec.ofNat 32 (s.cobLine * 32)
  | .addrReq => BitVec.ofNat 32 (reqLine s * 32)
  | _ => BitVec.ofNat 32 (s.reqAddr.toNat / 8 * 8)

/-- `bus_req_be_o`. -/
def busReqBe : BitVec 8 := if s.state = .cobReq then 0xff#8 else s.reqBe

/-- `bus_req_wimg_o`. -/
def busReqWimg : Wimg :=
  if s.state = .cobReq then default else { s.reqWimg with i := s.reqWimg.i || s.ci }

/-- `bus_req_data_o`; a single beat is in the least significant quarter. -/
def busReqData : ℕ → BitVec 64 :=
  if s.state = .cobReq then s.cobData else fun k => if k = 3 then s.reqWdata else 0

/-- `bus_accept`. -/
def busAccept : Bool := busReqValid s && i.busReqReady

/-- `push_req_valid_o`. -/
def pushReqValid : Bool := s.pushSt = .req && !s.pushCap

/-- `push_req_addr_o`. -/
def pushReqAddr : BitVec 32 := BitVec.ofNat 32 (s.pushLine * 32)

/-- `push_accept`. -/
def pushAccept : Bool := pushReqValid s && i.pushReqReady

/-! ## The write queue count -/

/-- `wq_push`. -/
def wqPush : Bool :=
  busAccept s i && (s.state = .cobReq || s.state = .addrReq || s.state = .swriteReq)

/-- `wq_push_cob`. -/
def wqPushCob : Bool := s.state = .cobReq

/-- `wq_pop`. -/
def wqPop : Bool := i.busWrDone && s.wqCount ≠ 0

/-- `wq_count_popped`. -/
def wqCountPopped : ℕ := (s.wqCount + 8 - (wqPop s i).toNat) % 8

/-- `wq_count_next`. -/
def wqCountNext : ℕ := (wqCountPopped s i + (wqPush s i).toNat) % 8

/-- `wq_cob_next`. -/
def wqCobNext (k : ℕ) : Bool :=
  if wqPush s i ∧ k = wqCountPopped s i % 4 then wqPushCob s
  else if wqPop s i then (if k + 1 < 4 then s.wqCob (k + 1) else false)
  else s.wqCob k

/-! ## RAM ports -/

/-- `fill_beat`. -/
def fillBeat : Bool := s.state = .fillWait && i.busRdValid && !i.busRdError

/-- `fill_dw`. -/
def fillDw : ℕ := (reqDw s + s.stepIdx) % 4

/-- `install_go`. -/
def installGo : Bool := s.state = .install && !s.snpValid

/-- `data_raddr`: the set and the double word. -/
def dataRaddr : ℕ × ℕ :=
  if s.pushSt = .read then (cfg.setOf s.pushLine, s.pushIdx)
  else if s.state = .cobRead then (reqSet cfg s, s.stepIdx)
  else if s.state = .idle || (cfg.fastLoadHit && s.state = .lookup && s.earlyData) then
    (cfg.setOf (lineOf i.reqAddr), dwOf i.reqAddr)
  else (reqSet cfg s, reqDw s)

/-- `data_way_we`. -/
def dataWayWe (w : ℕ) : Bool :=
  if fillBeat s i || s.state = .zero || s.state = .storeWrite then w = s.way
  else if lkFastSt cfg s i then s.hitw w
  else false

/-- `data_waddr`: the double word written, always in the request's set. -/
def dataWdw : ℕ :=
  if fillBeat s i then fillDw s
  else if s.state = .zero then s.stepIdx
  else reqDw s

/-- `data_be`. -/
def dataBe : BitVec 8 :=
  if fillBeat s i || s.state = .zero then 0xff#8
  else if s.state = .storeWrite || lkFastSt cfg s i then s.reqBe
  else 0xff#8

/-- `data_wdata`. -/
def dataWdata : BitVec 64 :=
  if fillBeat s i then i.busRdData
  else if s.state = .zero then 0
  else if s.state = .storeWrite || lkFastSt cfg s i then s.reqWdata
  else 0

/-- The data array after this edge. -/
def nextDataRam (w set dw : ℕ) : BitVec 64 :=
  if dataWayWe cfg s i w ∧ set = reqSet cfg s ∧ dw = dataWdw s i then
    mergeBytes (dataBe cfg s i) (dataWdata cfg s i) (s.dataRam w set dw)
  else s.dataRam w set dw

/-- `st_we`. -/
def stWe : Bool :=
  if s.snpValid then sStWe cfg s i
  else if lkGo cfg s i then (lk cfg s i).stWe
  else installGo s

/-- `st_waddr`. -/
def stWaddr : ℕ := if s.snpValid then cfg.setOf (snpLine s) else reqSet cfg s

/-- The valid half of `st_wdata`. -/
def stWvalid : ℕ → Bool :=
  if s.snpValid then sValid cfg s i
  else if lkGo cfg s i then (lk cfg s i).valid
  else if installGo s then setWay s.vld s.way true
  else s.vld

/-- The dirty half of `st_wdata`. -/
def stWdirty : ℕ → Bool :=
  if s.snpValid then sDirty cfg s i
  else if lkGo cfg s i then (lk cfg s i).dirty
  else if installGo s then setWay s.drt s.way s.installDirty
  else s.drt

/-- `lru_we`. -/
def lruWe : Bool :=
  if s.snpValid then false
  else if lkGo cfg s i then (lk cfg s i).lruWe
  else installGo s

/-- `lru_wdata`. -/
def lruWdata : ℕ → ℕ :=
  if !s.snpValid && !lkGo cfg s i && installGo s then
    lruTouch cfg (if anyValid cfg s then lruRdata s else lruSeed) s.way
  else lruTouch cfg (lruRdata s) (lk cfg s i).way

/-- The flash invalidate takes effect. -/
def flash : Bool := s.state = .idle && i.hid0Dcfi

/-- The tag array after this edge. -/
def nextTagRam (w set : ℕ) : ℕ :=
  if installGo s ∧ w = s.way ∧ set = reqSet cfg s then reqTag cfg s else s.tagRam w set

/-- The valid half of the state array after this edge. -/
def nextStValid (set w : ℕ) : Bool :=
  if stWe cfg s i ∧ set = stWaddr cfg s then stWvalid cfg s i w else s.stValid set w

/-- The dirty half. -/
def nextStDirty (set w : ℕ) : Bool :=
  if stWe cfg s i ∧ set = stWaddr cfg s then stWdirty cfg s i w else s.stDirty set w

/-- `set_valid_q` after this edge; the flash invalidate wins over a state write. -/
def nextSetValid (set : ℕ) : Bool :=
  if flash s i then false
  else if stWe cfg s i ∧ set = stWaddr cfg s then true else s.setValid set

/-- `lru_q` after this edge. -/
def nextLruRam (set w : ℕ) : ℕ :=
  if lruWe cfg s i ∧ set = reqSet cfg s then lruWdata cfg s i w else s.lruRam set w

/-- The line whose set and tag the next lookup reads: `rd_set_d` and `rd_tag_d`. -/
def rdLine : ℕ :=
  if i.rstN && i.snoopValid then lineOf i.snoopAddr
  else if reqReady cfg s i then lineOf i.reqAddr
  else reqLine s

/-! ## Step sequencing -/

/-- `early_rsp_op`. -/
def earlyRspOp : Bool :=
  s.reqOp = .load || s.reqOp = .lwarx || s.reqOp = .dcbt || s.reqOp = .dcbtst

/-- `touch_op`. -/
def touchOp : Bool := s.reqOp = .dcbt || s.reqOp = .dcbtst

/-- `step_done`. -/
def stepDone : Bool :=
  match s.state with
  | .cobReq => busAccept s i
  | .addrReq => busAccept s i && s.reqOp ≠ .dcbz
  | .addrWait => s.wqCount = 0
  | .fillWait => fillBeat s i && s.stepIdx = 3
  | .sreadWait => i.busRdValid
  | .zero => s.stepIdx = 3
  | .storeWrite => true
  | .swriteReq => busAccept s i
  | .install => installGo s
  | _ => false

/-- `plan_next`. -/
def planNext : Plan :=
  match s.state with
  | .cobReq => { s.plan with cob := false }
  | .addrReq | .addrWait => { s.plan with addr := false }
  | .fillWait => { s.plan with fill := false }
  | .sreadWait => { s.plan with sread := false }
  | .zero => { s.plan with zero := false }
  | .storeWrite => { s.plan with store := false }
  | .swriteReq => { s.plan with swrite := false }
  | .install => { s.plan with install := false }
  | _ => s.plan

/-- `state_next`. -/
def stateNext : DcState := firstStep (planNext s)

/-- The lookup answers without a step. -/
def lkAnswers : Bool :=
  (lk cfg s i).rsp || ((lk cfg s i).plan = .none && !(lk cfg s i).read && !(lk cfg s i).sync)

/-- Where a lookup goes. -/
def afterLookup : DcState :=
  if lkAnswers cfg s i then .idle
  else if lkFastDone cfg s i || lkFastStDone cfg s i then
    if reqAccept cfg s i then .lookup else .idle
  else if (lk cfg s i).read && s.earlyData then .idle
  else if (lk cfg s i).read then .readData
  else if (lk cfg s i).sync then .syncWait
  else firstStep (lk cfg s i).plan

/-- `state_q` after this edge. -/
def nextState : DcState :=
  if stepDone s i then stateNext s
  else match s.state with
    | .idle => if reqAccept cfg s i then .lookup else .idle
    | .lookup => if lkGo cfg s i then afterLookup cfg s i else .lookup
    | .readData => .idle
    | .syncWait => if s.wqCount = 0 then .idle else .syncWait
    | .cobRead => if s.stepIdx = 3 then .cobReq else .cobRead
    | .addrReq => if busAccept s i && s.reqOp = .dcbz then .addrWait else .addrReq
    | .fillReq => if busAccept s i then .fillWait else .fillReq
    | .fillWait => if i.busRdValid && i.busRdError then .idle else .fillWait
    | .sreadReq => if busAccept s i then .sreadWait else .sreadReq
    | st => st

/-- `plan_q` after this edge. -/
def nextPlan : Plan :=
  if stepDone s i then planNext s
  else if lkGo cfg s i then (lk cfg s i).plan
  else if s.state = .fillWait && i.busRdValid && i.busRdError then .none
  else s.plan

/-- `step_idx_q` after this edge. -/
def nextStepIdx : ℕ :=
  if stepDone s i then 0
  else match s.state with
    | .lookup => if lkGo cfg s i then 0 else s.stepIdx
    | .cobRead | .zero => (s.stepIdx + 1) % 4
    | .fillReq => if busAccept s i then 0 else s.stepIdx
    | .fillWait => if fillBeat s i then (s.stepIdx + 1) % 4 else s.stepIdx
    | _ => s.stepIdx

/-- `rsp_sent_q` after this edge. -/
def nextRspSent : Bool :=
  match s.state with
  | .idle => if reqAccept cfg s i then false else s.rspSent
  | .lookup =>
    if lkGo cfg s i && !lkAnswers cfg s i && (lkFastDone cfg s i || lkFastStDone cfg s i) then
      false
    else s.rspSent
  | .fillWait =>
    if i.busRdValid && i.busRdError then true
    else if fillBeat s i && s.stepIdx = 0 && earlyRspOp s then true
    else s.rspSent
  | .sreadWait => if i.busRdValid then true else s.rspSent
  | _ => s.rspSent

/-- The response registers once a taken answer has left them. -/
def rspCleared : Response :=
  if s.rsp.valid && i.rspReady then
    { s.rsp with valid := false, error := false, align := false, ok := false }
  else s.rsp

/-- What the state machine writes to the response registers. -/
def rspFsm : Response :=
  match s.state with
  | .lookup =>
    if lkGo cfg s i then
      if lkAnswers cfg s i then
        { valid := true, error := (lk cfg s i).err, align := (lk cfg s i).align
          ok := (lk cfg s i).ok, data := 0 }
      else if lkFastDone cfg s i || lkFastStDone cfg s i then rspCleared s i
      else if (lk cfg s i).read && s.earlyData then
        { rspCleared s i with valid := true, data := hitData cfg s }
      else rspCleared s i
    else rspCleared s i
  | .readData => { valid := true, data := s.dataRdata s.way }
  | .syncWait => if s.wqCount = 0 then { valid := true } else rspCleared s i
  | .fillWait =>
    if i.busRdValid && i.busRdError then
      if !s.rspSent then { valid := true, error := !touchOp s } else rspCleared s i
    else if fillBeat s i && s.stepIdx = 0 && earlyRspOp s then
      { valid := true, data := i.busRdData }
    else rspCleared s i
  | .sreadWait =>
    if i.busRdValid then { valid := true, error := i.busRdError, data := i.busRdData }
    else rspCleared s i
  | _ => rspCleared s i

/-- The last step answers an operation that has not been. -/
def stepAnswers : Bool :=
  stepDone s i && stateNext s = .idle && !s.rspSent && s.state ≠ .sreadWait

/-- The response registers after this edge. -/
def nextRsp : Response :=
  if stepAnswers s i then { valid := true, ok := s.stwcxOk } else rspFsm cfg s i

/-- `resv_valid_q` after this edge. -/
def nextResvValid : Bool :=
  if lkGo cfg s i && (lk cfg s i).resvClear then false
  else if lkGo cfg s i && (lk cfg s i).resvSet then true
  else if sResvCancel cfg s i then false
  else s.resvValid

/-- `push_st_q` after this edge. -/
def nextPushSt : PushState :=
  match s.pushSt with
  | .idle => if sPush cfg s i then .read else .idle
  | .read => if s.pushIdx = 3 then .req else .read
  | .req => if pushAccept s i then .wait else .req
  | .wait => if i.pushDone then .idle else .wait

/-- `push_idx_q` after this edge. -/
def nextPushIdx : ℕ :=
  match s.pushSt with
  | .idle => if sPush cfg s i then 0 else s.pushIdx
  | .read => (s.pushIdx + 1) % 4
  | _ => s.pushIdx

/-- A fill that ends in an error after its answer raises the machine check. -/
def fillAsyncError : Bool :=
  s.state = .fillWait && i.busRdValid && i.busRdError && s.rspSent && !touchOp s

/-- The edge with `rst_ni` high: every register and array. -/
def running : State where
  state := nextState cfg s i
  pushSt := nextPushSt cfg s i
  reqOp := if reqAccept cfg s i then i.reqOp else s.reqOp
  reqAddr := if reqAccept cfg s i then i.reqAddr else s.reqAddr
  reqBe := if reqAccept cfg s i then i.reqBe else s.reqBe
  reqWdata := if reqAccept cfg s i then i.reqWdata else s.reqWdata
  reqWimg := if reqAccept cfg s i then i.reqWimg else s.reqWimg
  plan := nextPlan cfg s i
  way := if lkGo cfg s i then (lk cfg s i).way else s.way
  addrTt := if lkGo cfg s i then (lk cfg s i).addrTt else s.addrTt
  installDirty := if lkGo cfg s i then (lk cfg s i).installDirty else s.installDirty
  ci := if lkGo cfg s i then (lk cfg s i).ci else s.ci
  stwcxOk := if lkGo cfg s i then (lk cfg s i).ok else s.stwcxOk
  rspSent := nextRspSent cfg s i
  stepIdx := nextStepIdx cfg s i
  cobValid :=
    if lkGo cfg s i && (lk cfg s i).cob then true
    else if wqPop s i && s.wqCob 0 then false
    else s.cobValid
  cobCap := s.state = .cobRead
  cobLine := if lkGo cfg s i && (lk cfg s i).cob then (lk cfg s i).cobLine else s.cobLine
  cobWay := if lkGo cfg s i && (lk cfg s i).cob then (lk cfg s i).way else s.cobWay
  cobCapIdx := s.stepIdx
  cobData := fun k => if s.cobCap ∧ k = s.cobCapIdx then s.dataRdata s.cobWay else s.cobData k
  pushIdx := nextPushIdx cfg s i
  pushCapIdx := s.pushIdx
  pushCap := s.pushSt = .read
  pushWay := if sPush cfg s i then hway cfg s else s.pushWay
  pushLine := if sPush cfg s i then snpLine s else s.pushLine
  pushData := fun k => if s.pushCap ∧ k = s.pushCapIdx then s.dataRdata s.pushWay else s.pushData k
  snpValid := i.snoopValid
  snpAddr := if i.snoopValid then i.snoopAddr else s.snpAddr
  snpTt := if i.snoopValid then i.snoopTt else s.snpTt
  snpBurst := if i.snoopValid then i.snoopBurst else s.snpBurst
  snpProbe := if i.snoopValid then i.snoopProbe else s.snpProbe
  snpRspValid := s.snpValid
  snpRspArtry := sArtry cfg s i
  snpRspHit := s.snpValid && hit cfg s
  snpRspPush := sPush cfg s i
  resvValid := nextResvValid cfg s i
  resvLine := if lkGo cfg s i && (lk cfg s i).resvSet then reqLine s else s.resvLine
  wqCount := wqCountNext s i
  wqCob := wqCobNext s i
  setValid := nextSetValid cfg s i
  rsp := nextRsp cfg s i
  hitEvt := lkGo cfg s i && (lk cfg s i).hitEvt
  missEvt := lkGo cfg s i && (lk cfg s i).missEvt
  asyncError :=
    (i.busWrDone && i.busWrError) || (i.pushDone && i.pushError) || fillAsyncError s i
  protocolError :=
    s.protocolError || (!wqPop s i && i.busWrDone) ||
      (i.busRdValid && s.state ≠ .fillWait && s.state ≠ .sreadWait) ||
      (i.pushDone && s.pushSt ≠ .wait) || (lkGo cfg s i && (lk cfg s i).proto)
  dce := i.hid0Dce
  earlyData :=
    reqAccept cfg s i && s.pushSt ≠ .read && !(lkFastSt cfg s i && !s.earlyData)
  fwd := reqAccept cfg s i && lkFastSt cfg s i && s.earlyData && lkFastStDw cfg s i
  fwdWay := if lkFastSt cfg s i then s.hitw else s.fwdWay
  fwdBe := if lkFastSt cfg s i then s.reqBe else s.fwdBe
  fwdWdata := if lkFastSt cfg s i then s.reqWdata else s.fwdWdata
  rdSet := cfg.setOf (rdLine cfg s i)
  rdTag := cfg.tagOf (rdLine cfg s i)
  tag := fun w => nextTagRam cfg s w (cfg.setOf (rdLine cfg s i))
  vld := fun w => svNext (cfg.setOf (rdLine cfg s i)) &&
    nextStValid cfg s i (cfg.setOf (rdLine cfg s i)) w
  drt := fun w => svNext (cfg.setOf (rdLine cfg s i)) &&
    nextStValid cfg s i (cfg.setOf (rdLine cfg s i)) w &&
    nextStDirty cfg s i (cfg.setOf (rdLine cfg s i)) w
  hitw := fun w => svNext (cfg.setOf (rdLine cfg s i)) &&
    nextStValid cfg s i (cfg.setOf (rdLine cfg s i)) w &&
    nextTagRam cfg s w (cfg.setOf (rdLine cfg s i)) = cfg.tagOf (rdLine cfg s i)
  dataRdata := fun w => s.dataRam w (dataRaddr cfg s i).1 (dataRaddr cfg s i).2
  tagRam := nextTagRam cfg s
  stValid := nextStValid cfg s i
  stDirty := nextStDirty cfg s i
  lruRam := nextLruRam cfg s i
  dataRam := nextDataRam cfg s i
where
  /-- `sv_next`: the read set holds state after this edge. -/
  svNext (set : ℕ) : Bool :=
    i.rstN && !flash s i && (s.setValid set || (stWe cfg s i && stWaddr cfg s = set))

/-- The registers reset drives, over those it leaves alone. -/
def reset (t : State) : State :=
  { t with
    state := .idle, plan := .none, stepIdx := 0, rspSent := false, cobValid := false
    cobCap := false, pushSt := .idle, pushIdx := 0, pushCap := false, snpValid := false
    snpRspValid := false, snpRspArtry := false, snpRspHit := false, snpRspPush := false
    resvValid := false, resvLine := 0, wqCount := 0, wqCob := fun _ => false
    setValid := fun _ => false, rsp := {}, hitEvt := false, missEvt := false
    asyncError := false, protocolError := false, earlyData := false, fwd := false }

/-- One clock edge. -/
def step : State := if i.rstN then running cfg s i else reset (running cfg s i)

end Signals

/-- The data cache as a clocked machine, started by an edge in reset. -/
def machine (cfg : Config) : Clocked.Machine State Input where
  Initial := fun s => ∃ s₀ i, i.rstN = false ∧ s = step cfg s₀ i
  step := step cfg

/-- An edge in reset starts the machine. -/
theorem initial_reset (cfg : Config) : (machine cfg).Initial (step cfg default { rstN := false }) :=
  ⟨default, { rstN := false }, rfl, rfl⟩

end Dcache
end SloPPC603
