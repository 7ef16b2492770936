import SloPPC603.Bus.Pins

/-!
# The scalar master

The registers and clock edge of `ppc_bus60x.sv`, which makes one cache-inhibited
single-beat access at a time.

* `step` — the clock edge.
* `Log` — what a request has been given beside a run.
* `Delivers`, `delivers_run` — a read is its standing beat, and a request ends once.
-/

namespace SloPPC603
namespace Bus
namespace Scalar

open Clocked

/-! ## Registers -/

/-- `bus_state_t`. -/
inductive Phase where
  | idle | addrRequest | addrTransfer | addrWait | addrRetrySample | addrAbort | retryGap
  | dataRequest | dataTransfer | dataRelease | readConfirm | readReplacement
  | readReplacementConfirm
  deriving DecidableEq

/-- The inputs of one cycle. -/
structure Input where
  rstN : Bool := true
  busCe : Bool := false
  reqValid : Bool := false
  reqInstruction : Bool := false
  reqWrite : Bool := false
  reqAddr : BitVec 32 := 0
  reqWdata : BitVec 32 := 0
  reqWstrb : BitVec 4 := 0
  /-- The kind in the high two bits, and the resource of an external access. -/
  reqAttr : BitVec 6 := 0
  reqGbl : Bool := false
  rspReady : Bool := false
  pins : MasterIn := {}
  d : BitVec 64 := 0

/-- The registers. -/
structure State where
  state : Phase
  write : Bool
  instruction : Bool
  addr : BitVec 32
  wdata : BitVec 32
  wstrb : BitVec 4
  size : BitVec 3
  attr : BitVec 6
  gbl : Bool
  pendingRdata : BitVec 32
  pendingError : Bool
  rspValid : Bool
  rspRdata : BitVec 32
  rspError : Bool
  protocolError : Bool
  addrReleasePending : Bool
  dataReleasePending : Bool
  idle : Bool
  slow : Bool

/-- The registers after an edge with `rst_ni` low; `slow_q` has no reset. -/
def reset (s : State) : State :=
  { s with
    state := .idle, write := false, instruction := false, addr := 0, wdata := 0, wstrb := 0
    size := 0, attr := 0, gbl := false, pendingRdata := 0, pendingError := false
    rspValid := false, rspRdata := 0, rspError := false, protocolError := false
    addrReleasePending := false, dataReleasePending := false, idle := true }

/-! ## Bytes of a request -/

/-- The bytes of a word that are enabled, the first the most significant. -/
def enabled (w : BitVec 32) (be : BitVec 4) : BitVec 32 :=
  (if be.getLsbD 3 then w.extractLsb' 24 8 else 0) ++ (if be.getLsbD 2 then w.extractLsb' 16 8 else 0) ++
    (if be.getLsbD 1 then w.extractLsb' 8 8 else 0) ++ (if be.getLsbD 0 then w.extractLsb' 0 8 else 0)

/-- `selected_read_word`. -/
def selectedReadWord (busData : BitVec 64) (wordHalf : Bool) (byteEnable : BitVec 4) : BitVec 32 :=
  enabled (if wordHalf then busData.extractLsb' 0 32 else busData.extractLsb' 32 32) byteEnable

/-- The byte offset and TSIZ of byte enables that have one. -/
def requestShape : BitVec 4 → Option (BitVec 2 × BitVec 3)
  | 0b1000 => some (0, 0b001)
  | 0b0100 => some (1, 0b001)
  | 0b0010 => some (2, 0b001)
  | 0b0001 => some (3, 0b001)
  | 0b1100 => some (0, 0b010)
  | 0b0011 => some (2, 0b010)
  | 0b0110 => some (1, 0b010)
  | 0b1110 => some (0, 0b011)
  | 0b0111 => some (1, 0b011)
  | 0b1111 => some (0, 0b100)
  | _ => none

section Request

variable (q : Input)

/-- `request_byte_offset`. -/
def requestByteOffset : BitVec 2 := ((requestShape q.reqWstrb).map Prod.fst).getD 0

/-- `request_size`. -/
def requestSize : BitVec 3 := ((requestShape q.reqWstrb).map Prod.snd).getD 0

/-- `request_shape_valid`. -/
def requestShapeValid : Bool :=
  (requestShape q.reqWstrb).isSome && q.reqAddr.extractLsb' 0 2 = 0 &&
    !(q.reqInstruction && (q.reqWrite || q.reqWstrb ≠ 0b1111))

end Request

/-- `tt_o`, by the kind of a request. -/
def transferType (attr : BitVec 6) (write : Bool) : BitVec 5 :=
  if attr.extractLsb' 4 2 = 1 then if write then 0b10010 else 0b11010
  else if attr.extractLsb' 4 2 = 2 then if write then 0b10100 else 0b11100
  else if write then 0b00010 else 0b01010

section Signals

variable (s : State) (i : Input)

/-! ## Outputs -/

/-- `req_ready_o`. -/
def reqReady : Bool :=
  i.rstN && i.busCe && (s.idle || !s.slow) && s.state = .idle && !s.rspValid

/-- A request is accepted. -/
def accepts : Bool := i.reqValid && reqReady s i

/-- `rsp_valid_o`. -/
def rspValidOut : Bool := i.rstN && i.busCe && s.rspValid

/-- `busy_o`. -/
def busy : Bool := i.rstN && (s.state ≠ .idle || s.rspValid)

/-- The master owns the address pins. -/
def addrOwned : Bool :=
  i.rstN && (s.state = .addrTransfer || s.state = .addrWait || s.state = .addrRetrySample ||
    s.state = .addrAbort)

/-- The pins the master drives. -/
def out : MasterOut where
  brN := !(i.rstN && s.state = .addrRequest)
  abbN := i.rstN && s.addrReleasePending
  abbOe := addrOwned s i
  tsN := s.state ≠ .addrTransfer
  tsOe := addrOwned s i
  a := s.addr
  tt := transferType s.attr s.write
  tbstN := if s.attr.extractLsb' 4 2 = 2 then !s.attr.getLsbD 3 else true
  tsiz := if s.attr.extractLsb' 4 2 = 2 then s.attr.extractLsb' 0 3 else s.size
  tc := if s.instruction then 0b10 else 0b00
  ciN := false
  wtN := true
  gblN := !s.gbl
  cse := 0
  addrOe := addrOwned s i
  dbbN := i.rstN && s.dataReleasePending
  dbbOe := i.rstN && (s.state = .dataTransfer || s.state = .dataRelease || s.state = .readConfirm)
  d := if s.addr.getLsbD 2 then 0#32 ++ enabled s.wdata s.wstrb else enabled s.wdata s.wstrb ++ 0#32
  dOe := i.rstN && s.write && (s.state = .dataTransfer || s.state = .dataRelease)

/-! ## The clock edge -/

/-- The word of the beat on the pins. -/
def beatWord : BitVec 32 := selectedReadWord i.d (s.addr.getLsbD 2) s.wstrb

/-- A response, put into `b`. -/
def respond (rdata : BitVec 32) (error : Bool) (b : State) : State :=
  { b with rspValid := true, rspRdata := rdata, rspError := error, state := .idle }

/-- A read whose candidate is judged. -/
def confirm (b : State) : State :=
  let p := i.pins
  if !p.teaN then respond 0 true b
  else if !p.drtryN then
    if !p.taN then { b with pendingRdata := beatWord s i, state := .readReplacementConfirm }
    else { b with state := .readReplacement }
  else respond s.pendingRdata false b

/-- The state machine on a bus edge. -/
def edge : State :=
  let b := { s with rspValid := s.rspValid && !i.rspReady }
  let p := i.pins
  match s.state with
  | .idle =>
    let b := { b with addrReleasePending := false, dataReleasePending := false }
    if accepts s i then
      if !requestShapeValid i then
        { b with rspValid := true, rspRdata := 0, rspError := true, protocolError := true }
      else
        { b with
          write := i.reqWrite, instruction := i.reqInstruction
          addr := i.reqAddr + (requestByteOffset i).setWidth 32
          wdata := i.reqWdata, wstrb := i.reqWstrb, size := requestSize i
          attr := if i.reqInstruction then 0 else i.reqAttr, gbl := i.reqGbl
          pendingRdata := 0, pendingError := false, state := .addrRequest }
    else b
  | .addrRequest => if p.granted then { b with state := .addrTransfer } else b
  | .addrTransfer =>
    if !p.aackN then
      { b with addrReleasePending := true, protocolError := true, state := .addrAbort }
    else { b with state := .addrWait }
  | .addrWait =>
    if !p.aackN then { b with addrReleasePending := true, state := .addrRetrySample } else b
  | .addrRetrySample =>
    { b with
      addrReleasePending := false, state := if !p.artryN then .retryGap else .dataRequest }
  | .addrAbort => respond 0 true { b with addrReleasePending := false }
  | .retryGap => { b with state := .addrRequest }
  | .dataRequest => if p.dataGranted then { b with state := .dataTransfer } else b
  | .dataTransfer =>
    if !p.teaN then
      { b with
        pendingRdata := 0, pendingError := true, dataReleasePending := true
        state := .dataRelease }
    else if !p.drtryN then
      if !s.write then
        { b with
          pendingRdata := 0, pendingError := true, protocolError := true
          dataReleasePending := true, state := .dataRelease }
      else if !p.taN then
        { b with
          pendingRdata := 0, pendingError := false, dataReleasePending := true
          state := .dataRelease }
      else b
    else if !p.taN then
      if s.write then
        { b with
          pendingRdata := 0, pendingError := false, dataReleasePending := true
          state := .dataRelease }
      else
        { b with
          pendingRdata := beatWord s i, pendingError := false, dataReleasePending := true
          state := .readConfirm }
    else b
  | .dataRelease => respond s.pendingRdata s.pendingError { b with dataReleasePending := false }
  | .readConfirm => confirm s i { b with dataReleasePending := false }
  | .readReplacement =>
    if !p.teaN then respond 0 true b
    else if p.drtryN then respond 0 true { b with protocolError := true }
    else if !p.taN then
      { b with pendingRdata := beatWord s i, state := .readReplacementConfirm }
    else b
  | .readReplacementConfirm => confirm s i b

/-- The clock edge. -/
def step : State :=
  let slow := s.slow || !i.busCe
  if !i.rstN then { reset s with slow := slow }
  else if i.busCe then
    { edge s i with slow := slow, idle := s.state = .idle && !s.rspValid }
  else { s with slow := slow }

end Signals

/-- The machine: it starts from a reset. -/
def machine : Clocked.Machine State Input where
  Initial s := ∃ s₀, s = reset s₀
  step := step

/-! ## What a request is given -/

/-- The last request accepted, the bus edges of its data tenure, and what it has been given. -/
structure Log where
  live : Bool
  req : Input
  edges : List (Answer (BitVec 64))
  /-- The responses taken. -/
  taken : ℕ
  /-- Its last address tenure was retried. -/
  retried : Bool
  /-- AACK came with TS. -/
  aborted : Bool

/-- Nothing accepted. -/
def Log.start : Log := ⟨false, {}, [], 0, false, false⟩

/-- The data tenure of a read. -/
def reads (s : State) : Bool :=
  s.state = .readConfirm || s.state = .readReplacement || s.state = .readReplacementConfirm ||
    (s.state = .dataTransfer && !s.write)

/-- The log over a clock edge. -/
def Log.update (l : Log) (s : State) (i : Input) : Log :=
  if !i.rstN then .start
  else if !i.busCe then l
  else if accepts s i then ⟨true, i, [], 0, false, false⟩
  else
    { l with
      edges := if reads s then l.edges ++ [i.pins.answer i.d] else l.edges
      taken := if s.rspValid && i.rspReady then l.taken + 1 else l.taken
      retried :=
        if s.state = .addrRetrySample then !i.pins.artryN
        else if s.state = .addrTransfer then false else l.retried
      aborted := l.aborted || (s.state = .addrTransfer && !i.pins.aackN) }

/-- The attribute a request carries. -/
def requestAttr (q : Input) : BitVec 6 := if q.reqInstruction then 0 else q.reqAttr

/-- The attributes of a request. -/
def attributes (q : Input) : Attributes where
  a := q.reqAddr + (requestByteOffset q).setWidth 32
  tt := transferType (requestAttr q) q.reqWrite
  tbstN := if (requestAttr q).extractLsb' 4 2 = 2 then !(requestAttr q).getLsbD 3 else true
  tsiz :=
    if (requestAttr q).extractLsb' 4 2 = 2 then (requestAttr q).extractLsb' 0 3
    else requestSize q
  tc := if q.reqInstruction then 0b10 else 0b00
  ciN := false
  wtN := true
  gblN := !q.reqGbl
  cse := 0

/-- The data of a write on the bus. -/
def writeData (q : Input) : BitVec 64 :=
  if (attributes q).a.getLsbD 2 then 0#32 ++ enabled q.reqWdata q.reqWstrb
  else enabled q.reqWdata q.reqWstrb ++ 0#32

/-- The word a read returns of its beat. -/
def readWord (q : Input) (beat : BitVec 64) : BitVec 32 :=
  selectedReadWord beat ((attributes q).a.getLsbD 2) q.reqWstrb

section Inv

/-- The registers hold the request. -/
structure Holds (s : State) (q : Input) : Prop where
  shape : requestShapeValid q = true
  write : s.write = q.reqWrite
  instruction : s.instruction = q.reqInstruction
  addr : s.addr = (attributes q).a
  wdata : s.wdata = q.reqWdata
  wstrb : s.wstrb = q.reqWstrb
  size : s.size = requestSize q
  attr : s.attr = requestAttr q
  gbl : s.gbl = q.reqGbl

/-- A request under way. -/
structure Open (s : State) (l : Log) : Prop where
  live : l.live = true
  taken : l.taken = 0
  rspValid : s.rspValid = false
  holds : Holds s l.req

/-- A data tenure whose reader is in a phase. -/
structure Reading (phase : Reader.Phase (BitVec 64)) (l : Log) : Prop where
  read : l.req.reqWrite = false
  retried : l.retried = false
  follows : Reader.Follows 1 l.edges
  phase : (Reader.run 1 l.edges).phase = phase

/-- Why a read failed. -/
def Failed (l : Log) : Prop :=
  requestShapeValid l.req = false ∨ l.aborted = true ∨ (Reader.run 1 l.edges).phase = .failed

/-- A response is right: the word of the beat that stands, or an error. -/
structure Answers (rdata : BitVec 32) (error : Bool) (l : Log) : Prop where
  read : error = false → l.req.reqWrite = false →
    ∃ w, standing l.edges = [w] ∧ rdata = readWord l.req w
  error : error = true → rdata = 0 ∧ (l.req.reqWrite = false → Failed l)

/-- A request that has its response. -/
structure Ended (s : State) (l : Log) : Prop where
  once : l.taken + (if s.rspValid then 1 else 0) = 1
  retried : l.retried = false
  answers : s.rspValid = true → Answers s.rspRdata s.rspError l

/-- The candidate of a read. -/
def Held (s : State) (l : Log) : Prop :=
  ∃ w, Reading (.held w) l ∧ s.pendingRdata = readWord l.req w

/-- The registers against the log, in a state. -/
def Phase.Inv (s : State) (l : Log) : Phase → Prop
  | .idle => if l.live then Ended s l else s.rspValid = false
  | .addrRequest | .retryGap | .addrTransfer => Open s l ∧ l.edges = []
  | .addrWait | .addrRetrySample | .dataRequest => Open s l ∧ l.edges = [] ∧ l.retried = false
  | .addrAbort => Open s l ∧ l.retried = false ∧ l.aborted = true
  | .dataTransfer =>
    Open s l ∧ l.retried = false ∧ (l.req.reqWrite = false → Reading .waiting l)
  | .dataRelease => Open s l ∧ l.retried = false ∧ Answers s.pendingRdata s.pendingError l
  | .readConfirm | .readReplacementConfirm => Open s l ∧ Held s l
  | .readReplacement => Open s l ∧ Reading .replacing l

/-- The registers against the log. -/
def Inv (s : State) (l : Log) : Prop := s.state.Inv s l

variable {s : State} {i : Input} {l : Log}

theorem accepts_spec (h : accepts s i = true) : s.state = .idle ∧ s.rspValid = false := by
  simp only [accepts, reqReady, Bool.and_eq_true, decide_eq_true_eq, Bool.not_eq_true'] at h
  exact ⟨h.2.1.2, h.2.2⟩

theorem step_bus (hr : i.rstN = true) (hb : i.busCe = true) : step s i =
    { edge s i with slow := s.slow, idle := s.state = .idle && !s.rspValid } := by
  simp [step, hr, hb]

/-- The log of a request over a bus edge. -/
theorem update_bus (hr : i.rstN = true) (hb : i.busCe = true) (hs : s.state ≠ .idle) :
    l.update s i =
      { l with
        edges := if reads s then l.edges ++ [i.pins.answer i.d] else l.edges
        taken := if s.rspValid && i.rspReady then l.taken + 1 else l.taken
        retried :=
          if s.state = .addrRetrySample then !i.pins.artryN
          else if s.state = .addrTransfer then false else l.retried
        aborted := l.aborted || (s.state = .addrTransfer && !i.pins.aackN) } := by
  have hno : accepts s i = false := by
    by_contra ha
    exact hs (accepts_spec (by simpa using ha)).1
  simp [Log.update, hr, hb, hno]

/-- A request under way keeps its registers, and has its response as it ends. -/
theorem edge_under (hs : s.state ≠ .idle) (hv : s.rspValid = false) :
    ((edge s i).write = s.write ∧ (edge s i).instruction = s.instruction ∧
      (edge s i).addr = s.addr ∧ (edge s i).wdata = s.wdata ∧ (edge s i).wstrb = s.wstrb ∧
      (edge s i).size = s.size ∧ (edge s i).attr = s.attr ∧ (edge s i).gbl = s.gbl) ∧
      (edge s i).rspValid = decide ((edge s i).state = .idle) := by
  unfold edge confirm respond
  cases hstate : s.state with
  | idle => exact absurd hstate hs
  | _ =>
    dsimp only
    split_ifs <;> simp [hv]

theorem beatWord_eq (ho : Open s l) : beatWord s i = readWord l.req i.d := by
  rw [beatWord, ho.holds.addr, ho.holds.wstrb]
  rfl

section Bus

variable (hr : i.rstN = true) (hb : i.busCe = true) (ho : Open s l) (hs : s.state ≠ .idle)
include hr hb ho hs

theorem taken_under : (l.update s i).taken = 0 := by
  rw [update_bus hr hb hs, ho.rspValid]
  exact ho.taken

/-- **A request under way stays so until it ends.** -/
theorem open_step (hgoes : (edge s i).state ≠ .idle) : Open (step s i) (l.update s i) := by
  obtain ⟨⟨h1, h2, h3, h4, h5, h6, h7, h8⟩, h9⟩ := edge_under (i := i) hs ho.rspValid
  have hstep := step_bus (s := s) hr hb
  have hreq : (l.update s i).req = l.req ∧ (l.update s i).live = l.live := by
    rw [update_bus hr hb hs]
    exact ⟨rfl, rfl⟩
  have hq := ho.holds
  refine ⟨hreq.2.trans ho.live, taken_under hr hb ho hs, ?_, ?_⟩
  · rw [hstep]
    exact h9.trans (decide_eq_false hgoes)
  · rw [hreq.1, hstep]
    exact ⟨hq.shape, h1.trans hq.write, h2.trans hq.instruction, h3.trans hq.addr,
      h4.trans hq.wdata, h5.trans hq.wstrb, h6.trans hq.size, h7.trans hq.attr, h8.trans hq.gbl⟩

theorem inv_of_state {x : Phase} (hx : (edge s i).state = x) (hgoes : x ≠ .idle)
    (h : Open (step s i) (l.update s i) → x.Inv (step s i) (l.update s i)) :
    Inv (step s i) (l.update s i) := by
  have hst : (step s i).state = x := by rw [step_bus hr hb, hx]
  rw [Inv, hst]
  exact h (open_step hr hb ho hs (by rwa [hx]))

/-- A request that ends has its response. -/
theorem inv_ends (hx : (edge s i).state = .idle) (hret : (l.update s i).retried = false)
    (hanswers : Answers (edge s i).rspRdata (edge s i).rspError (l.update s i)) :
    Inv (step s i) (l.update s i) := by
  have hvalid : (step s i).rspValid = true := by
    rw [step_bus hr hb]
    exact (edge_under hs ho.rspValid).2.trans (decide_eq_true hx)
  have hstate : (step s i).state = .idle := by rw [step_bus hr hb, hx]
  have hlive : (l.update s i).live = true := by
    rw [update_bus hr hb hs]
    exact ho.live
  rw [Inv, hstate, Phase.Inv, if_pos hlive]
  refine ⟨?_, hret, fun _ => ?_⟩
  · rw [taken_under hr hb ho hs, hvalid, if_pos rfl]
  · rw [step_bus hr hb]
    exact hanswers

/-- **An address tenure.** -/
theorem inv_address (he : l.edges = [])
    (ha : s.state = .addrRequest ∨ s.state = .retryGap ∨ s.state = .addrTransfer ∨
      ((s.state = .addrWait ∨ s.state = .addrRetrySample ∨ s.state = .dataRequest) ∧
        l.retried = false)) :
    Inv (step s i) (l.update s i) := by
  have hlog := update_bus (l := l) hr hb hs
  have hgo {x : Phase} := inv_of_state (x := x) hr hb ho hs
  have hstill : (l.update s i).edges = [] := by
    rw [hlog]
    rcases ha with ha | ha | ha | ⟨ha | ha | ha, -⟩ <;> simp [reads, ha, he]
  rcases ha with ha | ha | ha | ⟨ha | ha | ha, hret⟩
  · by_cases hg : i.pins.granted = true
    · exact hgo (x := .addrTransfer) (by simp [edge, ha, hg]) (by decide) fun h => ⟨h, hstill⟩
    · exact hgo (x := .addrRequest) (by simp [edge, ha, hg]) (by decide) fun h => ⟨h, hstill⟩
  · exact hgo (x := .addrRequest) (by simp [edge, ha]) (by decide) fun h => ⟨h, hstill⟩
  · have hretried : (l.update s i).retried = false := by rw [hlog]; simp [ha]
    by_cases hg : i.pins.aackN = true
    · exact hgo (x := .addrWait) (by simp [edge, ha, hg]) (by decide) fun h => ⟨h, hstill, hretried⟩
    · have haborted : (l.update s i).aborted = true := by rw [hlog]; simp [ha, hg]
      exact hgo (x := .addrAbort) (by simp [edge, ha, hg]) (by decide)
        fun h => ⟨h, hretried, haborted⟩
  · have hretried : (l.update s i).retried = false := by rw [hlog]; simp [ha, hret]
    by_cases hg : i.pins.aackN = true
    · exact hgo (x := .addrWait) (by simp [edge, ha, hg]) (by decide) fun h => ⟨h, hstill, hretried⟩
    · exact hgo (x := .addrRetrySample) (by simp [edge, ha, hg]) (by decide)
        fun h => ⟨h, hstill, hretried⟩
  · by_cases hg : i.pins.artryN = true
    · have hretried : (l.update s i).retried = false := by rw [hlog]; simp [ha, hg]
      exact hgo (x := .dataRequest) (by simp [edge, ha, hg]) (by decide)
        fun h => ⟨h, hstill, hretried⟩
    · exact hgo (x := .retryGap) (by simp [edge, ha, hg]) (by decide) fun h => ⟨h, hstill⟩
  · have hretried : (l.update s i).retried = false := by rw [hlog]; simp [ha, hret]
    by_cases hg : i.pins.dataGranted = true
    · refine hgo (x := .dataTransfer) (by simp [edge, ha, hg]) (by decide)
        fun h => ⟨h, hretried, fun hread => ⟨hread, hretried, ?_, ?_⟩⟩
      · rw [hstill]
        exact Reader.follows_nil (by decide)
      · rw [hstill]
        rfl
    · exact hgo (x := .dataRequest) (by simp [edge, ha, hg]) (by decide)
        fun h => ⟨h, hstill, hretried⟩

/-- The data tenure of a write. -/
theorem inv_write (hx : s.state = .dataTransfer) (hret : l.retried = false)
    (hw : l.req.reqWrite = true) : Inv (step s i) (l.update s i) := by
  have hlog := update_bus (l := l) hr hb hs
  have hgo {x : Phase} := inv_of_state (x := x) hr hb ho hs
  have hretried : (l.update s i).retried = false := by rw [hlog]; simp [hx, hret]
  have hreq : (l.update s i).req.reqWrite = true := by rw [hlog]; exact hw
  have hwrite : s.write = true := ho.holds.write.trans hw
  have hrelease : ∀ e : Bool, (edge s i).state = .dataRelease → (edge s i).pendingRdata = 0 →
      (edge s i).pendingError = e → Inv (step s i) (l.update s i) := by
    intro e hst hdata herr
    refine hgo hst (by decide) fun h => ⟨h, hretried, ?_, ?_⟩
    · intro _ hno
      rw [hreq] at hno
      cases hno
    · intro _
      refine ⟨?_, fun hno => ?_⟩
      · rw [step_bus hr hb]
        exact hdata
      · rw [hreq] at hno
        cases hno
  have hstay : (edge s i).state = .dataTransfer → Inv (step s i) (l.update s i) := fun hst =>
    hgo hst (by decide) fun h => ⟨h, hretried, fun hno => by
      rw [hreq] at hno
      exact nomatch hno⟩
  cases htea : i.pins.teaN with
  | false =>
    exact hrelease true (by simp [edge, hx, htea]) (by simp [edge, hx, htea])
      (by simp [edge, hx, htea])
  | true =>
    cases hta : i.pins.taN with
    | true => exact hstay (by simp [edge, hx, htea, hta, hwrite])
    | false =>
      exact hrelease false (by simp [edge, hx, htea, hta, hwrite])
        (by simp [edge, hx, htea, hta, hwrite]) (by simp [edge, hx, htea, hta, hwrite])

/-- **An edge of the data tenure of a read.** -/
theorem inv_reads {phase : Reader.Phase (BitVec 64)} (h : Reading phase l)
    (hphase : (s.state = .dataTransfer ∧ phase = .waiting) ∨
      ((s.state = .readConfirm ∨ s.state = .readReplacementConfirm) ∧
        ∃ w, phase = .held w ∧ s.pendingRdata = readWord l.req w) ∨
      (s.state = .readReplacement ∧ phase = .replacing)) :
    Inv (step s i) (l.update s i) := by
  have hlog := update_bus (l := l) hr hb hs
  have hwrite : s.write = false := ho.holds.write.trans h.read
  have hreads : reads s = true := by
    rcases hphase with ⟨hp, -⟩ | ⟨hp | hp, -⟩ | ⟨hp, -⟩ <;> simp [reads, hp, hwrite]
  have hlive : phase.live = true := by
    rcases hphase with ⟨-, rfl⟩ | ⟨-, w, rfl, -⟩ | ⟨-, rfl⟩ <;> rfl
  have hedges : (l.update s i).edges = l.edges ++ [i.pins.answer i.d] := by rw [hlog, hreads]; rfl
  have hret : (l.update s i).retried = false := by
    rw [hlog]
    rcases hphase with ⟨hp, -⟩ | ⟨hp | hp, -⟩ | ⟨hp, -⟩ <;> simp [hp, h.retried]
  have hreq : (l.update s i).req = l.req := by rw [hlog]
  have hread : (l.update s i).req.reqWrite = false := by rw [hreq]; exact h.read
  have hfollows : Reader.Follows 1 (l.update s i).edges := by
    rw [hedges]
    exact h.follows.concat (by rwa [h.phase]) _
  have hrun : Reader.run 1 (l.update s i).edges =
      Reader.take 1 (Reader.run 1 l.edges) (i.pins.answer i.d) := by
    rw [hedges, Reader.run_concat]
  have hgo {x : Phase} := inv_of_state (x := x) hr hb ho hs
  have hgoes : ∀ {x}, (Reader.run 1 (l.update s i).edges).phase = x → Reading x (l.update s i) :=
    fun hx => ⟨hread, hret, hfollows, hx⟩
  -- an edge that ends in an error
  have hfails : (Reader.run 1 (l.update s i).edges).phase = .failed →
      ((edge s i).state = .dataRelease ∧ (edge s i).pendingRdata = 0 ∧
        (edge s i).pendingError = true) ∨
      ((edge s i).state = .idle ∧ (edge s i).rspRdata = 0 ∧ (edge s i).rspError = true) →
      Inv (step s i) (l.update s i) := by
    rintro hf (⟨hx, hdata, herr⟩ | ⟨hx, hdata, herr⟩)
    · refine hgo hx (by decide) fun hopen => ⟨hopen, hret, ?_⟩
      rw [step_bus hr hb]
      show Answers (edge s i).pendingRdata (edge s i).pendingError (l.update s i)
      rw [hdata, herr]
      exact ⟨by rintro ⟨⟩, fun _ => ⟨rfl, fun _ => Or.inr (Or.inr hf)⟩⟩
    · refine inv_ends hr hb ho hs hx hret ?_
      rw [hdata, herr]
      exact ⟨by rintro ⟨⟩, fun _ => ⟨rfl, fun _ => Or.inr (Or.inr hf)⟩⟩
  have hbeat : beatWord s i = readWord (l.update s i).req i.d := by
    rw [hreq]
    exact beatWord_eq ho
  -- an edge that brings a candidate
  have hholds : (Reader.run 1 (l.update s i).edges).phase = .held i.d →
      (edge s i).state = .readConfirm ∨ (edge s i).state = .readReplacementConfirm →
      (edge s i).pendingRdata = beatWord s i → Inv (step s i) (l.update s i) := by
    intro hh hx hdata
    have hheld : Held (step s i) (l.update s i) := by
      refine ⟨i.d, hgoes hh, ?_⟩
      rw [step_bus hr hb]
      exact hdata.trans hbeat
    rcases hx with hx | hx
    · exact hgo hx (by decide) fun hopen => ⟨hopen, hheld⟩
    · exact hgo hx (by decide) fun hopen => ⟨hopen, hheld⟩
  rw [Reader.take, h.phase] at hrun
  have habort : (i.pins.answer i.d).abort = !i.pins.teaN := rfl
  have hcancel : (i.pins.answer i.d).cancel = !i.pins.drtryN := rfl
  have hoffer : (i.pins.answer i.d).offer = !i.pins.taN := rfl
  have hword : (i.pins.answer i.d).word = i.d := rfl
  rcases hphase with ⟨hp, rfl⟩ | ⟨hp, w, rfl, hpending⟩ | ⟨hp, rfl⟩
  · simp only [habort, hcancel] at hrun
    by_cases hbad : (!i.pins.teaN || !i.pins.drtryN) = true
    · rw [if_pos hbad] at hrun
      refine hfails (by rw [hrun]) (Or.inl ?_)
      cases htea : i.pins.teaN <;> cases hdrtry : i.pins.drtryN <;>
        simp [edge, hp, htea, hdrtry, hwrite] at hbad ⊢
    · rw [if_neg hbad, Reader.resume, hoffer, hword] at hrun
      simp only [Bool.or_eq_true, Bool.not_eq_true', not_or, Bool.not_eq_false] at hbad
      cases hta : i.pins.taN with
      | true =>
        refine hgo (x := .dataTransfer) (by simp [edge, hp, hbad, hta]) (by decide)
          fun hopen => ⟨hopen, hret, fun _ => hgoes ?_⟩
        rw [hrun, hta]
        rfl
      | false =>
        refine hholds ?_ (Or.inl (by simp [edge, hp, hbad, hta, hwrite]))
          (by simp [edge, hp, hbad, hta, hwrite])
        rw [hrun, hta]
        rfl
  · have hconfirm : ∃ b, edge s i = confirm s i b := by
      rcases hp with hp | hp
      · exact ⟨{ s with rspValid := s.rspValid && !i.rspReady, dataReleasePending := false },
          by simp only [edge, hp]⟩
      · exact ⟨{ s with rspValid := s.rspValid && !i.rspReady }, by simp only [edge, hp]⟩
    obtain ⟨b, hconfirm⟩ := hconfirm
    simp only [habort, hcancel] at hrun
    cases htea : i.pins.teaN with
    | false =>
      rw [htea] at hrun
      exact hfails (by rw [hrun]; rfl) (Or.inr (by simp [hconfirm, confirm, respond, htea]))
    | true =>
      cases hdrtry : i.pins.drtryN with
      | false =>
        rw [htea, hdrtry] at hrun
        simp only [Bool.not_true, Bool.not_false, Bool.false_eq_true, if_false, if_true,
          Reader.replace, hoffer, hword] at hrun
        cases hta : i.pins.taN with
        | true =>
          refine hgo (x := .readReplacement) (by simp [hconfirm, confirm, htea, hdrtry, hta])
            (by decide) fun hopen => ⟨hopen, hgoes ?_⟩
          rw [hrun, hta]
          rfl
        | false =>
          refine hholds ?_ (Or.inr (by simp [hconfirm, confirm, htea, hdrtry, hta]))
            (by simp [hconfirm, confirm, htea, hdrtry, hta])
          rw [hrun, hta]
          rfl
      | true =>
        -- the candidate stands
        have hnone : (Reader.run 1 l.edges).kept = [] := by
          have hlt := h.follows.live (by rw [h.phase]; rfl)
          exact List.length_eq_zero_iff.1 (by omega)
        rw [htea, hdrtry] at hrun
        simp only [Bool.not_true, Bool.false_eq_true, if_false, hnone, List.length_nil,
          Nat.zero_add, if_true, List.nil_append] at hrun
        refine inv_ends hr hb ho hs (by simp [hconfirm, confirm, respond, htea, hdrtry]) hret ?_
        have hdata : (edge s i).rspRdata = s.pendingRdata ∧ (edge s i).rspError = false := by
          simp [hconfirm, confirm, respond, htea, hdrtry]
        rw [hdata.1, hdata.2]
        refine ⟨fun _ _ => ⟨w, ?_, ?_⟩, by rintro ⟨⟩⟩
        · rw [← hfollows.kept, hrun]
        · rw [hreq]
          exact hpending
  · simp only [habort, hcancel, Bool.not_not] at hrun
    by_cases hbad : (!i.pins.teaN || i.pins.drtryN) = true
    · rw [if_pos hbad] at hrun
      refine hfails (by rw [hrun]) (Or.inr ?_)
      cases htea : i.pins.teaN <;> cases hdrtry : i.pins.drtryN <;>
        simp [edge, respond, hp, htea, hdrtry] at hbad ⊢
    · rw [if_neg hbad, Reader.replace, hoffer, hword] at hrun
      simp only [Bool.or_eq_true, Bool.not_eq_true', not_or, Bool.not_eq_false,
        Bool.not_eq_true] at hbad
      cases hta : i.pins.taN with
      | true =>
        refine hgo (x := .readReplacement) (by simp [edge, hp, hbad, hta]) (by decide)
          fun hopen => ⟨hopen, hgoes ?_⟩
        rw [hrun, hta]
        rfl
      | false =>
        refine hholds ?_ (Or.inr (by simp [edge, hp, hbad, hta])) (by simp [edge, hp, hbad, hta])
        rw [hrun, hta]
        rfl

end Bus

/-- **An edge with no request under way.** -/
theorem inv_idle (h : Inv s l) (hr : i.rstN = true) (hb : i.busCe = true) (hs : s.state = .idle) :
    Inv (step s i) (l.update s i) := by
  rw [Inv, hs, Phase.Inv] at h
  cases ha : accepts s i with
  | true =>
    have hlog : l.update s i = ⟨true, i, [], 0, false, false⟩ := by simp [Log.update, hr, hb, ha]
    cases hm : requestShapeValid i with
    | false =>
      have hstep : (step s i).state = .idle ∧ (step s i).rspValid = true ∧
          (step s i).rspError = true ∧ (step s i).rspRdata = 0 := by
        rw [step_bus hr hb]
        simp [edge, hs, ha, hm]
      rw [Inv, hstep.1, hlog, Phase.Inv, if_pos rfl]
      refine ⟨by rw [hstep.2.1]; rfl, rfl, fun _ => ?_⟩
      rw [hstep.2.2.1, hstep.2.2.2]
      exact ⟨nofun, fun _ => ⟨rfl, fun _ => Or.inl hm⟩⟩
    | true =>
      have hv := (accepts_spec ha).2
      have hstep : step s i = { step s i with
          state := .addrRequest, rspValid := false, write := i.reqWrite
          instruction := i.reqInstruction, addr := (attributes i).a, wdata := i.reqWdata
          wstrb := i.reqWstrb, size := requestSize i, attr := requestAttr i, gbl := i.reqGbl } := by
        rw [step_bus hr hb]
        simp [edge, hs, ha, hm, hv, attributes, requestAttr]
      rw [hstep, hlog]
      exact ⟨⟨rfl, rfl, rfl, hm, rfl, rfl, rfl, rfl, rfl, rfl, rfl, rfl⟩, rfl⟩
  | false =>
    have hlog : l.update s i =
        { l with taken := if s.rspValid && i.rspReady then l.taken + 1 else l.taken } := by
      simp [Log.update, hr, hb, ha, hs, reads]
    have hstep : (step s i).state = .idle ∧ (step s i).rspValid = (s.rspValid && !i.rspReady) ∧
        (step s i).rspError = s.rspError ∧ (step s i).rspRdata = s.rspRdata := by
      rw [step_bus hr hb]
      simp [edge, hs, ha]
    rw [Inv, hstep.1, hlog, Phase.Inv]
    cases hl : l.live with
    | false =>
      rw [hl, if_neg Bool.false_ne_true] at h
      rw [if_neg Bool.false_ne_true, hstep.2.1, h]
      rfl
    | true =>
      rw [hl, if_pos rfl] at h
      rw [if_pos rfl]
      refine ⟨?_, h.retried, fun hv => ?_⟩
      · have honce := h.once
        rw [hstep.2.1]
        cases hv : s.rspValid <;> cases i.rspReady <;> simp_all
      · rw [hstep.2.1, Bool.and_eq_true] at hv
        rw [hstep.2.2.1, hstep.2.2.2]
        exact ⟨(h.answers hv.1).read, (h.answers hv.1).error⟩

/-- A cycle between bus edges. -/
theorem inv_slow (h : Inv s l) (slow : Bool) : Inv { s with slow := slow } l := by
  have hopen : Open s l → Open { s with slow := slow } l := fun h =>
    ⟨h.live, h.taken, h.rspValid, h.holds.shape, h.holds.write, h.holds.instruction, h.holds.addr,
      h.holds.wdata, h.holds.wstrb, h.holds.size, h.holds.attr, h.holds.gbl⟩
  have hphase : ∀ x : Phase, x.Inv s l → x.Inv { s with slow := slow } l := by
    intro x h
    cases x with
    | idle =>
      rw [Phase.Inv] at h ⊢
      split_ifs at h ⊢
      · exact ⟨h.once, h.retried, h.answers⟩
      · exact h
    | addrRequest | retryGap | addrTransfer | addrWait | addrRetrySample | dataRequest | addrAbort
      | dataTransfer | dataRelease | readConfirm | readReplacement | readReplacementConfirm =>
      exact ⟨hopen h.1, h.2⟩
  exact hphase _ h

/-- **A clock edge.** -/
theorem inv_step (h : Inv s l) : Inv (step s i) (l.update s i) := by
  cases hr : i.rstN with
  | false =>
    have hstep : (step s i).state = .idle ∧ (step s i).rspValid = false := by simp [step, hr, reset]
    rw [Inv, hstep.1, Log.update, hr]
    exact hstep.2
  | true =>
    cases hb : i.busCe with
    | false =>
      have hlog : l.update s i = l := by simp [Log.update, hr, hb]
      have hstep : step s i = { s with slow := true } := by simp [step, hr, hb]
      rw [hlog, hstep]
      exact inv_slow h true
    | true =>
      have hinv : s.state.Inv s l := h
      cases hs : s.state with
      | idle => exact inv_idle h hr hb hs
      | addrRequest =>
        rw [hs] at hinv
        exact inv_address hr hb hinv.1 (by rw [hs]; decide) hinv.2 (Or.inl hs)
      | retryGap =>
        rw [hs] at hinv
        exact inv_address hr hb hinv.1 (by rw [hs]; decide) hinv.2 (Or.inr (Or.inl hs))
      | addrTransfer =>
        rw [hs] at hinv
        exact inv_address hr hb hinv.1 (by rw [hs]; decide) hinv.2 (Or.inr (Or.inr (Or.inl hs)))
      | addrWait =>
        rw [hs] at hinv
        exact inv_address hr hb hinv.1 (by rw [hs]; decide) hinv.2.1
          (Or.inr (Or.inr (Or.inr ⟨Or.inl hs, hinv.2.2⟩)))
      | addrRetrySample =>
        rw [hs] at hinv
        exact inv_address hr hb hinv.1 (by rw [hs]; decide) hinv.2.1
          (Or.inr (Or.inr (Or.inr ⟨Or.inr (Or.inl hs), hinv.2.2⟩)))
      | dataRequest =>
        rw [hs] at hinv
        exact inv_address hr hb hinv.1 (by rw [hs]; decide) hinv.2.1
          (Or.inr (Or.inr (Or.inr ⟨Or.inr (Or.inr hs), hinv.2.2⟩)))
      | dataTransfer =>
        rw [hs] at hinv
        have hno : s.state ≠ .idle := by rw [hs]; decide
        cases hw : l.req.reqWrite with
        | true => exact inv_write hr hb hinv.1 hno hs hinv.2.1 hw
        | false => exact inv_reads hr hb hinv.1 hno (hinv.2.2 hw) (Or.inl ⟨hs, rfl⟩)
      | readConfirm =>
        rw [hs] at hinv
        obtain ⟨w, hread, hdata⟩ := hinv.2
        exact inv_reads hr hb hinv.1 (by rw [hs]; decide) hread
          (Or.inr (Or.inl ⟨Or.inl hs, w, rfl, hdata⟩))
      | readReplacementConfirm =>
        rw [hs] at hinv
        obtain ⟨w, hread, hdata⟩ := hinv.2
        exact inv_reads hr hb hinv.1 (by rw [hs]; decide) hread
          (Or.inr (Or.inl ⟨Or.inr hs, w, rfl, hdata⟩))
      | readReplacement =>
        rw [hs] at hinv
        exact inv_reads hr hb hinv.1 (by rw [hs]; decide) hinv.2 (Or.inr (Or.inr ⟨hs, rfl⟩))
      | addrAbort =>
        rw [hs] at hinv
        obtain ⟨hopen, hret, habort⟩ := hinv
        have hno : s.state ≠ .idle := by rw [hs]; decide
        have hlog := update_bus (l := l) hr hb hno
        refine inv_ends hr hb hopen hno (by simp [edge, respond, hs]) (by rw [hlog]; simp [hs, hret]) ?_
        have hdata : (edge s i).rspRdata = 0 ∧ (edge s i).rspError = true := by
          simp [edge, respond, hs]
        rw [hdata.1, hdata.2, hlog]
        exact ⟨nofun, fun _ => ⟨rfl, fun _ => Or.inr (Or.inl (by simp [habort]))⟩⟩
      | dataRelease =>
        rw [hs] at hinv
        obtain ⟨hopen, hret, hanswers⟩ := hinv
        have hno : s.state ≠ .idle := by rw [hs]; decide
        have hlog := update_bus (l := l) hr hb hno
        refine inv_ends hr hb hopen hno (by simp [edge, respond, hs]) (by rw [hlog]; simp [hs, hret]) ?_
        have hdata : (edge s i).rspRdata = s.pendingRdata ∧
            (edge s i).rspError = s.pendingError := by simp [edge, respond, hs]
        have hsame : (l.update s i).edges = l.edges ∧ (l.update s i).req = l.req ∧
            (l.update s i).aborted = l.aborted := by
          rw [hlog]
          simp [reads, hs]
        rw [hdata.1, hdata.2]
        refine ⟨?_, ?_⟩
        · rw [hsame.1, hsame.2.1]
          exact hanswers.read
        · rw [Failed, hsame.1, hsame.2.1, hsame.2.2]
          exact hanswers.error

end Inv

/-! ## Over a run -/

/-- What the last request accepted has been given. -/
structure Delivers (s : State) (i : Input) (l : Log) : Prop where
  /-- It has no response while it is under way, and one after. -/
  once : l.live = true →
    l.taken + (if s.rspValid then 1 else 0) = if s.state = .idle then 1 else 0
  none : l.live = false → s.rspValid = false
  /-- A response without an error is the beat that stands. -/
  read : l.live = true → s.rspValid = true → s.rspError = false → l.req.reqWrite = false →
    ∃ w, standing l.edges = [w] ∧ s.rspRdata = readWord l.req w
  error : l.live = true → s.rspValid = true → s.rspError = true →
    s.rspRdata = 0 ∧ (l.req.reqWrite = false → Failed l)
  /-- Every address tenure of it has its attributes, and every data tenure its data. -/
  pins : s.state ≠ .idle → (out s i).attributes = attributes l.req ∧ (out s i).d = writeData l.req
  /-- Once retried it asks for the bus again. -/
  retried : l.live = true → l.retried = true →
    s.state = .retryGap ∨ s.state = .addrRequest ∨ s.state = .addrTransfer

section Runs

variable {s : State} {l : Log}

theorem open_of_inv (h : Inv s l) (hs : s.state ≠ .idle) : Open s l := by
  unfold Inv at h
  cases hstate : s.state <;> rw [hstate] at h hs <;> first | exact absurd rfl hs | exact h.1

theorem ended_of_inv (h : Inv s l) (hl : l.live = true) (hv : s.rspValid = true) : Ended s l := by
  by_cases hs : s.state = .idle
  · rwa [Inv, hs, Phase.Inv, if_pos hl] at h
  · rw [(open_of_inv h hs).rspValid] at hv
    cases hv

theorem pins_of_open (h : Open s l) (i : Input) :
    (out s i).attributes = attributes l.req ∧ (out s i).d = writeData l.req := by
  have hq := h.holds
  constructor
  · rw [MasterOut.attributes, out, hq.write, hq.instruction, hq.addr, hq.size, hq.attr, hq.gbl]
    rfl
  · rw [out, hq.addr, hq.wdata, hq.wstrb]
    rfl

theorem delivers_of_inv (h : Inv s l) (i : Input) : Delivers s i l where
  once hl := by
    by_cases hs : s.state = .idle
    · rw [if_pos hs]
      rw [Inv, hs, Phase.Inv, if_pos hl] at h
      exact h.once
    · have ho := open_of_inv h hs
      rw [if_neg hs, ho.taken, ho.rspValid]
      rfl
  none hl := by
    by_cases hs : s.state = .idle
    · rw [Inv, hs, Phase.Inv, hl, if_neg Bool.false_ne_true] at h
      exact h
    · exact (open_of_inv h hs).rspValid
  read hl hv := ((ended_of_inv h hl hv).answers hv).read
  error hl hv := ((ended_of_inv h hl hv).answers hv).error
  pins hs := pins_of_open (open_of_inv h hs) i
  retried hl hret := by
    have hno : l.retried ≠ false := by simp [hret]
    unfold Inv at h
    cases hs : s.state with
    | retryGap => exact Or.inl rfl
    | addrRequest => exact Or.inr (Or.inl rfl)
    | addrTransfer => exact Or.inr (Or.inr rfl)
    | idle =>
      rw [hs, Phase.Inv, if_pos hl] at h
      exact absurd h.retried hno
    | addrWait | addrRetrySample | dataRequest =>
      rw [hs] at h
      exact absurd h.2.2 hno
    | addrAbort | dataTransfer | dataRelease =>
      rw [hs] at h
      exact absurd h.2.1 hno
    | readConfirm | readReplacementConfirm =>
      rw [hs] at h
      obtain ⟨w, hread, -⟩ := h.2
      exact absurd hread.retried hno
    | readReplacement =>
      rw [hs] at h
      exact absurd h.2.retried hno

/-- The log of a run. -/
def log (r : Run machine) (n : ℕ) : Log := r.history .start (fun l s i => l.update s i) n

theorem inv_run (r : Run machine) (n : ℕ) : Inv (r.state n) (log r n) :=
  Run.invariant_history (A := fun _ _ => True) (I := Inv) (by rintro s ⟨s₀, rfl⟩; rfl)
    (fun _ _ _ h _ => inv_step h) fun _ _ => trivial

/-- **A read is its standing beat.** -/
theorem delivers_run (r : Run machine) (n : ℕ) :
    Delivers (r.state n) (r.input n) (log r n) := delivers_of_inv (inv_run r n) _

end Runs

end Scalar
end Bus
end SloPPC603
