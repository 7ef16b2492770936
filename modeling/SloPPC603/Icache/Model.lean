import Mathlib.Algebra.Group.Nat.Defs
import SloPPC603.Clocked.Machine
import SloPPC603.Words.OneHot

/-!
# The instruction cache

The registers, combinational signals and clock edge of `ppc_icache.sv`, for any
number of sets and ways that is a power of two, either fetch width, with or without
metadata beside each word.

The line, set, tag and word an address names are natural numbers.  A vector with a
bit for each way is a function of the way, read only below the number of ways.  A
word and its metadata travel together as a `Cell`; a line is eight of them by index,
the most significant word of the 256-bit bus word at index zero, and half a line is
the four of one data RAM row.

The RAM arrays are functions of their address and hold anything at the start.  The
data array's read is registered, and what it reads from a row that is written on the
same edge is undefined: the inputs of the cycle supply it.
-/

namespace SloPPC603
namespace Icache

open Words

/-- The parameters of the instruction cache. -/
structure Config where
  /-- `SET_BITS`: `SET_COUNT` is two to this power. -/
  setBits : ℕ
  /-- `WAY_BITS`: `WAY_COUNT` is two to this power. -/
  wayBits : ℕ
  /-- `FETCH_WIDTH` is 2. -/
  fetchPair : Bool
  /-- `ENABLE_METADATA`. -/
  metadata : Bool
  /-- `WORD_META_BITS`. -/
  metaBits : ℕ
  deriving DecidableEq, Repr

namespace Config

variable (cfg : Config)

/-- `SET_COUNT`. -/
def setCount : ℕ := 2 ^ cfg.setBits

/-- `WAY_COUNT`. -/
def wayCount : ℕ := 2 ^ cfg.wayBits

/-- The set a line belongs to. -/
def setOf (line : ℕ) : ℕ := line % cfg.setCount

/-- The tag of a line. -/
def tagOf (line : ℕ) : ℕ := line / cfg.setCount

end Config

/-- The line of an address. -/
def lineOf (addr : BitVec 32) : ℕ := addr.toNat / 32

/-- The word of its line an address names. -/
def wordOf (addr : BitVec 32) : ℕ := addr.toNat / 4 % 8

/-- A word and its metadata. -/
structure Cell (m : ℕ) where
  word : BitVec 32
  metadata : BitVec m
  deriving DecidableEq, Repr, Inhabited

/-- A row of the data RAM: half a line. -/
abbrev Row (m : ℕ) := ℕ → Cell m

/-- A line, as the transport delivers it. -/
abbrev Line (m : ℕ) := ℕ → Cell m

/-- Half of a line. -/
def Line.half {m : ℕ} (line : Line m) (h : ℕ) : Row m := fun k => line (4 * h + k)

/-- `icache_state_t`. -/
inductive IcState
  | idle
  | refillRequest
  | refillWait
  | install
  | refillDrain
  deriving DecidableEq, Repr, Inhabited

/-- The registers and the RAM arrays. -/
structure State (m : ℕ) where
  /-- `state_q`. -/
  state : IcState
  /-- `set_valid_q`. -/
  setValid : ℕ → Bool
  /-- `way_valid_ram`, by set and way. -/
  wayValidRam : ℕ → ℕ → Bool
  /-- `tag_ram`, by way and set. -/
  tagRam : ℕ → ℕ → ℕ
  /-- `data_ram`, by way, set and half. -/
  dataRam : ℕ → ℕ → ℕ → Row m
  /-- `row_rdata`: the registered read of each way. -/
  rowRdata : ℕ → Row m
  /-- `lru_ram`, by set and way. -/
  lruRam : ℕ → ℕ → ℕ
  /-- `rsp_valid_q`. -/
  rspValid : Bool
  /-- `rsp_error_q`. -/
  rspError : Bool
  /-- `rsp_bypass_q`. -/
  rspBypass : Bool
  /-- `rsp_insn_q`. -/
  rspInsn : BitVec 32
  /-- `rsp_meta_q`. -/
  rspMeta : BitVec m
  /-- `rsp_way_q`. -/
  rspWay : ℕ → Bool
  /-- `rsp_word_q`. -/
  rspWord : ℕ
  /-- `miss_addr_q`: the double word. -/
  missAddr : ℕ
  /-- `miss_set_q`. -/
  missSet : ℕ
  /-- `miss_tag_q`. -/
  missTag : ℕ
  /-- `miss_word_q`. -/
  missWord : ℕ
  /-- `victim_way_q`. -/
  victimWay : ℕ
  /-- `miss_valid_q`. -/
  missValid : ℕ → Bool
  /-- `line_half1_q` and `line_meta_half1_q`. -/
  lineHalf1 : Row m
  /-- `invalidate_done_q`. -/
  invalidateDone : Bool
  /-- `hit_q`. -/
  hit : Bool
  /-- `miss_q`. -/
  miss : Bool
  /-- `protocol_error_q`. -/
  protocolError : Bool
  /-- `upd_valid_q`. -/
  updValid : Bool
  /-- `upd_seed_q`. -/
  updSeed : Bool
  /-- `upd_set_q`. -/
  updSet : ℕ
  /-- `upd_way_q`. -/
  updWay : ℕ

/-- The inputs of a cycle. -/
structure Input (m : ℕ) where
  rstN : Bool
  fetchValid : Bool
  fetchAddr : BitVec 32
  fetchRspReady : Bool
  lock : Bool
  kill : Bool
  invalidate : Bool
  invalidateSet : Bool
  invalidateSetAddr : BitVec 32
  lineReqReady : Bool
  lineRspValid : Bool
  lineRsp : Line m
  lineRspError : Bool
  /-- What each way's data RAM reads from the row it writes. -/
  collision : ℕ → Row m

section Signals

variable (cfg : Config)

variable {m : ℕ} (s : State m) (i : Input m)

/-! ## The fetch port -/

/-- `lookup_set`. -/
def lookupSet : ℕ := cfg.setOf (lineOf i.fetchAddr)

/-- `lookup_tag`. -/
def lookupTag : ℕ := cfg.tagOf (lineOf i.fetchAddr)

/-- `fetch_addr_i[1:0] == 0`. -/
def aligned : Bool := i.fetchAddr.toNat % 4 == 0

/-- The response register is free on this edge. -/
def rspFree : Bool := !s.rspValid || i.fetchRspReady

/-- `fetch_ready_o`. -/
def fetchReady : Bool :=
  i.rstN && s.state == .idle && rspFree s i && !i.kill && !i.invalidate

/-- `accept`. -/
def accept : Bool := i.fetchValid && fetchReady s i

/-- `fetch_rsp_valid_o`. -/
def fetchRspValid : Bool := i.rstN && s.rspValid && !i.kill && !i.invalidate

/-! ## The lookup -/

/-- The ways, in order. -/
def ways : List ℕ := List.range cfg.wayCount

/-- `lookup_valid`. -/
def lookupValid (w : ℕ) : Bool := s.setValid (lookupSet cfg i) && s.wayValidRam (lookupSet cfg i) w

/-- `lookup_hit_way`. -/
def lookupHitWay (w : ℕ) : Bool :=
  lookupValid cfg s i w && s.tagRam w (lookupSet cfg i) == lookupTag cfg i

/-- `lookup_hit`. -/
def lookupHit : Bool := (ways cfg).any (lookupHitWay cfg s i)

/-- `lookup_way`. -/
def lookupWay : ℕ := gather (· ||| ·) (lookupHitWay cfg s i) id (ways cfg) 0

/-! ## The response -/

/-- `ram_insn` and `ram_insn1`: a word of the ways the response selects. -/
def ramInsn (k : ℕ) : BitVec 32 :=
  gather (· ||| ·) s.rspWay (fun w => (s.rowRdata w k).word) (ways cfg) 0

/-- `ram_meta` and `ram_meta1`. -/
def ramMeta (k : ℕ) : BitVec m :=
  if cfg.metadata then gather (· ||| ·) s.rspWay (fun w => (s.rowRdata w k).metadata) (ways cfg) 0 else 0

/-- A response of the fetch port.  The fields of the next word belong to the wide port. -/
structure Response (m : ℕ) where
  insn : BitVec 32
  metadata : BitVec m
  /-- The next word is there too. -/
  pair : Bool
  nextInsn : BitVec 32
  nextMetadata : BitVec m
  error : Bool
  bypass : Bool
  deriving DecidableEq, Repr

/-- `fetch_rsp_insn_o`, `fetch_rsp_meta_o`, `fetch_rsp_error_o` and `fetch_rsp_bypass_o`. -/
def response : Response m where
  insn := s.rspInsn ||| ramInsn cfg s s.rspWord
  metadata := (if cfg.metadata then s.rspMeta else 0) ||| ramMeta cfg s s.rspWord
  pair := cfg.fetchPair && (ways cfg).any s.rspWay && s.rspWord % 2 == 0
  nextInsn := ramInsn cfg s (s.rspWord / 2 * 2 + 1)
  nextMetadata := ramMeta cfg s (s.rspWord / 2 * 2 + 1)
  error := s.rspError
  bypass := s.rspBypass

/-- A response is taken on this edge. -/
def rspTaken : Bool := fetchRspValid s i && i.fetchRspReady

/-! ## The line port -/

/-- `line_req_valid_o`. -/
def lineReqValid : Bool := i.rstN && s.state == .refillRequest && !i.kill && !i.invalidate

/-- `line_req_line_addr_o`, as a line. -/
def lineReqLine : ℕ := s.missAddr / 4

/-- `line_req_critical_dw_o`. -/
def lineReqCriticalDw : ℕ := s.missAddr % 4

/-- `line_rsp_ready_o`. -/
def lineRspReady : Bool := i.rstN && (s.state == .refillWait || s.state == .refillDrain)

/-- A line, or the word that there is none, is taken on this edge. -/
def lineTaken : Bool := i.lineRspValid && lineRspReady s i

/-- `busy_o`. -/
def busy : Bool := i.rstN && (s.state != .idle || s.rspValid)

/-! ## The RAM controls -/

/-- `install_ok`. -/
def installOk : Bool := i.rstN && !i.kill && !i.invalidate

/-- `abort_install`: a kill in the cycle that would publish the tag. -/
def abortInstall : Bool := i.rstN && !i.invalidate && i.kill && s.state == .install

/-- `tag_we`. -/
def tagWe (w : ℕ) : Bool := installOk i && s.state == .install && s.victimWay == w

/-- `data_we`. -/
def dataWe (w : ℕ) : Bool :=
  installOk i && s.victimWay == w && (s.state == .install ||
    (s.state == .refillWait && i.lineRspValid && !i.lineRspError))

/-- The half that `data_waddr` names. -/
def dataHalf : ℕ := if s.state = .install then 1 else 0

/-- `row_wdata`. -/
def rowWdata : Row m := if s.state = .install then s.lineHalf1 else i.lineRsp.half 0

/-- `data_re`. -/
def dataRe : Bool := rspFree s i

/-- `way_valid_we`. -/
def wayValidWe : Bool := (installOk i && s.state == .install) || abortInstall s i

/-- `way_valid_wdata`. -/
def wayValidWdata (w : ℕ) : Bool :=
  if abortInstall s i then s.missValid w && !(s.victimWay == w)
  else s.missValid w || s.victimWay == w

/-- `LRU_SEED`: way `w` has rank `w`. -/
def lruSeed (w : ℕ) : ℕ := w

/-- `lru_touch`. -/
def lruTouch (ranks : ℕ → ℕ) (way : ℕ) (w : ℕ) : ℕ :=
  if w = way then 0
  else if ranks w < ranks way then (ranks w + 1) % cfg.wayCount
  else ranks w

/-- `lru_raddr`. -/
def lruRaddr : ℕ := if s.updValid then s.updSet else s.missSet

/-- `lru_rdata`. -/
def lruRdata : ℕ → ℕ := s.lruRam (lruRaddr s)

/-- `lru_wdata`. -/
def lruWdata : ℕ → ℕ := lruTouch cfg (if s.updSeed then lruSeed else lruRdata s) s.updWay

/-- `victim_way`: the lowest way that is not valid, else the one used longest ago. -/
def victimWay : ℕ :=
  if (ways cfg).all s.missValid then
    ((ways cfg).find? (fun w => lruRdata s w == cfg.wayCount - 1)).getD 0
  else ((ways cfg).find? (fun w => !s.missValid w)).getD 0

/-! ## The clock edge -/

/-- What the RAM arrays and the registers beside them hold after the edge; the other
registers are as before. -/
def clockRams : State m :=
  { s with
    wayValidRam := fun set w =>
      if wayValidWe s i ∧ set = s.missSet then wayValidWdata s i w else s.wayValidRam set w
    tagRam := fun w set => if tagWe s i w ∧ set = s.missSet then s.missTag else s.tagRam w set
    dataRam := fun w set half =>
      if dataWe s i w ∧ set = s.missSet ∧ half = dataHalf s then rowWdata s i
      else s.dataRam w set half
    rowRdata := fun w =>
      if !dataRe s i then s.rowRdata w
      else if dataWe s i w ∧ lookupSet cfg i = s.missSet ∧ wordOf i.fetchAddr / 4 = dataHalf s then
        i.collision w
      else s.dataRam w (lookupSet cfg i) (wordOf i.fetchAddr / 4)
    lruRam := fun set => if s.updValid ∧ set = s.updSet then lruWdata cfg s else s.lruRam set
    lineHalf1 := if s.state = .refillWait ∧ i.lineRspValid then i.lineRsp.half 1 else s.lineHalf1 }

/-- The registers that reset clears. -/
def clear : State m :=
  { s with
    state := .idle, setValid := fun _ => false
    rspValid := false, rspError := false, rspBypass := false, rspInsn := 0, rspMeta := 0
    rspWay := fun _ => false, rspWord := 0
    missAddr := 0, missSet := 0, missTag := 0, missWord := 0, victimWay := 0
    missValid := fun _ => false
    invalidateDone := false, hit := false, miss := false, protocolError := false
    updValid := false, updSeed := false, updSet := 0, updWay := 0 }

/-- The assignments of every edge out of reset, before those of the state. -/
def defaults : State m :=
  { clockRams cfg s i with
    invalidateDone := false, hit := false, miss := false, updValid := false
    rspValid := s.rspValid && !i.fetchRspReady
    setValid := fun set =>
      if i.invalidateSet ∧ set = cfg.setOf (lineOf i.invalidateSetAddr) then false
      else s.setValid set }

/-- The state after an edge that takes the refill back: one the transport has accepted is
drained. -/
def retracted : IcState :=
  if (s.state = .refillWait ∨ s.state = .refillDrain) ∧ i.lineRspValid = false then .refillDrain
  else .idle

/-- The response registers load whenever a fetch could be accepted. -/
def loadResponse (b : State m) : State m :=
  if rspFree s i then
    { b with
      rspWay := if aligned i then lookupHitWay cfg s i else fun _ => false
      rspWord := wordOf i.fetchAddr % 4, rspInsn := 0, rspMeta := 0 }
  else b

/-- The fields only a miss uses, captured before the tags are known. -/
def captureMiss (b : State m) : State m :=
  { b with
    missAddr := i.fetchAddr.toNat / 8, missSet := lookupSet cfg i, missTag := lookupTag cfg i
    missWord := wordOf i.fetchAddr, missValid := lookupValid cfg s i, rspBypass := false }

/-- An accepted fetch. -/
def acceptFetch (b : State m) : State m :=
  if !aligned i then { b with rspError := true, rspValid := true, protocolError := true }
  else if lookupHit cfg s i then
    { b with
      rspError := false, rspValid := true, hit := true
      updValid := true, updSeed := false, updSet := lookupSet cfg i, updWay := lookupWay cfg s i }
  else if i.lock then { b with rspError := false, rspBypass := true, rspValid := true, miss := true }
  else { b with miss := true, state := .refillRequest }

/-- A line, or its error, arrives in `IC_REFILL_WAIT`. -/
def takeLine (b : State m) : State m :=
  { b with
    rspWay := fun _ => false, rspError := i.lineRspError, rspValid := true
    rspInsn := if i.lineRspError then 0 else (i.lineRsp s.missWord).word
    rspMeta := if i.lineRspError then 0 else (i.lineRsp s.missWord).metadata
    state := if i.lineRspError then .idle else .install }

/-- The edge that publishes the tag. -/
def installLine (b : State m) : State m :=
  { b with
    setValid := fun set => if set = s.missSet then true else b.setValid set
    updValid := true, updSeed := !(ways cfg).any s.missValid
    updSet := s.missSet, updWay := s.victimWay, state := .idle }

/-- The registers after an edge. -/
def step : State m :=
  if !i.rstN then clear (clockRams cfg s i)
  else if i.invalidate then
    { defaults cfg s i with
      setValid := fun _ => false, rspValid := false, invalidateDone := true
      state := retracted s i }
  else if i.kill then { defaults cfg s i with rspValid := false, state := retracted s i }
  else match s.state with
    | .idle =>
      if accept s i then
        acceptFetch cfg s i (captureMiss cfg s i (loadResponse cfg s i (defaults cfg s i)))
      else loadResponse cfg s i (defaults cfg s i)
    | .refillRequest =>
      { defaults cfg s i with
        victimWay := victimWay cfg s
        state := if lineReqValid s i && i.lineReqReady then .refillWait else .refillRequest }
    | .refillWait =>
      if lineTaken s i then takeLine s i (defaults cfg s i) else defaults cfg s i
    | .install => installLine cfg s (defaults cfg s i)
    | .refillDrain =>
      if lineTaken s i then { defaults cfg s i with state := .idle } else defaults cfg s i

/-- The cache is out of reset, and a set is invalidated only with nothing in progress, as
the source asserts. -/
def Drained (s : State m) (i : Input m) : Prop :=
  i.rstN = true → i.invalidateSet = true →
    s.state = .idle ∧ s.rspValid = false ∧ accept s i = false

end Signals

/-- The registers after reset, over any contents of the RAM arrays. -/
def Initial {m : ℕ} (s : State m) : Prop := ∃ s₀ : State m, s = clear s₀

/-- The instruction cache. -/
def machine (cfg : Config) : Clocked.Machine (State cfg.metaBits) (Input cfg.metaBits) where
  Initial := Initial
  step := step cfg

end Icache
end SloPPC603
