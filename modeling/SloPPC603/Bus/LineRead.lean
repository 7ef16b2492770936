import SloPPC603.Bus.Pins

/-!
# The line-read master

The registers and clock edge of `ppc_bus60x_line_read.sv`, which reads a 32-byte line
critical doubleword first and stores the beats in line order.

* `step` — the clock edge.
* `Log` — what a request has been given beside a run.
* `Delivers`, `delivers_run` — a line is its four standing beats, and a request ends once.
-/

namespace SloPPC603
namespace Bus
namespace LineRead

open Clocked

/-! ## Registers -/

/-- `line_state_t`. -/
inductive Phase where
  | idle | addrRequest | addrTransfer | addrWait | addrRetrySample | addrAbort | retryGap
  | dataRequest | dataWait | beatConfirm | beatReplacement | dataErrorRelease
  deriving DecidableEq

/-- The inputs of one cycle. -/
structure Input where
  rstN : Bool := true
  busCe : Bool := false
  reqValid : Bool := false
  reqLineAddr : BitVec 32 := 0
  reqCriticalDw : BitVec 2 := 0
  reqInstruction : Bool := false
  reqGbl : Bool := false
  rspReady : Bool := false
  pins : MasterIn := {}
  d : BitVec 64 := 0

/-- The registers. -/
structure State where
  state : Phase
  startAddr : BitVec 32
  criticalDw : BitVec 2
  instruction : Bool
  gbl : Bool
  beatCount : BitVec 2
  provisional : BitVec 64
  line : BitVec 256
  rspValid : Bool
  rspError : Bool
  protocolError : Bool
  addrReleasePending : Bool
  dataReleasePending : Bool
  finalReleaseStarted : Bool
  releaseOeCycle : Bool
  idle : Bool
  slow : Bool

/-- The registers after an edge with `rst_ni` low; the line, the candidate and `slow_q` have
no reset. -/
def reset (s : State) : State :=
  { s with
    state := .idle, startAddr := 0, criticalDw := 0, instruction := false, gbl := false
    beatCount := 0, rspValid := false, rspError := false, protocolError := false
    addrReleasePending := false, dataReleasePending := false
    finalReleaseStarted := false, releaseOeCycle := false, idle := true }

/-- A doubleword of a line, the first the most significant. -/
def slot (line : BitVec 256) (k : BitVec 2) : BitVec 64 :=
  line.extractLsb' (192 - 64 * k.toNat) 64

/-- `insert_doubleword`. -/
def insertDoubleword (prior : BitVec 256) (k : BitVec 2) (value : BitVec 64) : BitVec 256 :=
  let result (j : BitVec 2) := if j = k then value else slot prior j
  result 0 ++ result 1 ++ result 2 ++ result 3

theorem slot_append (w : BitVec 2 → BitVec 64) (j : BitVec 2) :
    slot (w 0 ++ w 1 ++ w 2 ++ w 3) j = w j := by
  apply BitVec.eq_of_getLsbD_eq
  intro t ht
  rw [slot, BitVec.getLsbD_extractLsb', decide_eq_true ht, Bool.true_and, BitVec.getLsbD_append,
    BitVec.getLsbD_append, BitVec.getLsbD_append]
  have hcases : ∀ j : BitVec 2, j = 0 ∨ j = 1 ∨ j = 2 ∨ j = 3 := by decide
  rcases hcases j with rfl | rfl | rfl | rfl
  · have hidx : 192 - 64 * (0 : BitVec 2).toNat + t - 64 - 64 - 64 = t := by
      show 192 - 64 * 0 + t - 64 - 64 - 64 = t
      omega
    have hge : 192 ≤ 192 - 64 * (0 : BitVec 2).toNat + t := Nat.le_add_right _ _
    rw [if_neg (by omega), if_neg (by omega), if_neg (by omega), hidx]
  · have hidx : 192 - 64 * (1 : BitVec 2).toNat + t = 128 + t := rfl
    have hback : 128 + t - 64 - 64 = t := by omega
    rw [hidx, if_neg (by omega), if_neg (by omega), if_pos (by omega), hback]
  · have hidx : 192 - 64 * (2 : BitVec 2).toNat + t = 64 + t := rfl
    rw [hidx, if_neg (by omega), if_pos (by omega), Nat.add_sub_cancel_left]
  · have hidx : 192 - 64 * (3 : BitVec 2).toNat + t = 0 + t := rfl
    rw [hidx, Nat.zero_add, if_pos (by omega)]

/-- **An insertion changes its doubleword and no other.** -/
theorem slot_insertDoubleword (prior : BitVec 256) (j k : BitVec 2) (value : BitVec 64) :
    slot (insertDoubleword prior k value) j = if j = k then value else slot prior j :=
  slot_append (fun j => if j = k then value else slot prior j) j

section Signals

variable (s : State) (i : Input)

/-! ## Outputs -/

/-- `req_ready_o`. -/
def reqReady : Bool :=
  i.rstN && i.busCe && (s.idle || !s.slow) && s.state = .idle && !s.rspValid

/-- A request is accepted. -/
def accepts : Bool := i.reqValid && reqReady s i

/-- `rsp_valid_o`. -/
def rspValidOut : Bool := i.rstN && i.busCe && s.rspValid

/-- `busy_o`. -/
def busy : Bool := i.rstN && (s.state ≠ .idle || s.rspValid)

/-- The master owns the address pins. -/
def addrOwned : Bool :=
  i.rstN && (s.state = .addrTransfer || s.state = .addrWait || s.state = .addrRetrySample ||
    s.state = .addrAbort)

/-- The pins the master drives. -/
def out : MasterOut where
  brN := !(i.rstN && s.state = .addrRequest)
  abbN := i.rstN && s.addrReleasePending
  abbOe := addrOwned s i
  tsN := s.state ≠ .addrTransfer
  tsOe := addrOwned s i
  a := s.startAddr
  tt := 0b01110
  tbstN := false
  tsiz := 0b010
  tc := if s.instruction then 0b10 else 0b00
  ciN := true
  wtN := true
  gblN := !s.gbl
  cse := 0
  addrOe := addrOwned s i
  dbbN := i.rstN && s.dataReleasePending
  dbbOe := i.rstN &&
    (s.state = .dataWait || s.state = .beatConfirm ||
      (s.state = .beatReplacement && !s.finalReleaseStarted) ||
      (s.state = .dataErrorRelease && !s.finalReleaseStarted)) &&
    (!s.finalReleaseStarted || s.releaseOeCycle)
  d := 0
  dOe := false

/-! ## The clock edge -/

/-- The request is not of a whole line. -/
def misaligned : Bool := i.reqLineAddr.extractLsb' 0 5 ≠ 0

/-- `line_commit`. -/
def lineCommit : Bool := s.state = .beatConfirm && i.pins.teaN && i.pins.drtryN

/-- `line_clear`. -/
def lineClear : Bool :=
  (s.state = .idle && accepts s i && misaligned i) ||
  s.state = .addrAbort ||
  (s.state = .dataWait && (!i.pins.teaN || !i.pins.drtryN)) ||
  (s.state = .beatConfirm && !i.pins.teaN) ||
  (s.state = .beatReplacement && (!i.pins.teaN || i.pins.drtryN)) ||
  s.state = .dataErrorRelease

/-- `line_q` after a bus edge. -/
def lineNext : BitVec 256 :=
  if lineClear s i then 0
  else if lineCommit s i then insertDoubleword s.line (s.criticalDw + s.beatCount) s.provisional
  else s.line

/-- An error while the data bus is owned, and after it has been released. -/
def dataError (b : State) : State :=
  if s.finalReleaseStarted then { b with rspError := true, rspValid := true, state := .idle }
  else { b with rspError := true, dataReleasePending := true, state := .dataErrorRelease }

/-- The state machine on a bus edge. -/
def edge : State :=
  let b := { s with rspValid := s.rspValid && !i.rspReady }
  let p := i.pins
  match s.state with
  | .idle =>
    let b := { b with
      addrReleasePending := false, dataReleasePending := false
      finalReleaseStarted := false, releaseOeCycle := false }
    if accepts s i then
      if misaligned i then { b with rspError := true, rspValid := true, protocolError := true }
      else
        { b with
          startAddr := i.reqLineAddr + (0#27 ++ i.reqCriticalDw ++ 0#3)
          criticalDw := i.reqCriticalDw, instruction := i.reqInstruction, gbl := i.reqGbl
          beatCount := 0, rspError := false, state := .addrRequest }
    else b
  | .addrRequest => if p.granted then { b with state := .addrTransfer } else b
  | .addrTransfer =>
    if !p.aackN then
      { b with addrReleasePending := true, protocolError := true, state := .addrAbort }
    else { b with state := .addrWait }
  | .addrWait =>
    if !p.aackN then { b with addrReleasePending := true, state := .addrRetrySample } else b
  | .addrRetrySample =>
    { b with
      addrReleasePending := false, state := if !p.artryN then .retryGap else .dataRequest }
  | .addrAbort =>
    { b with addrReleasePending := false, rspError := true, rspValid := true, state := .idle }
  | .retryGap => { b with state := .addrRequest }
  | .dataRequest => if p.dataGranted then { b with state := .dataWait } else b
  | .dataWait =>
    let b := { b with releaseOeCycle := false }
    if !p.teaN then
      { b with rspError := true, dataReleasePending := true, state := .dataErrorRelease }
    else if !p.drtryN then
      { b with
        rspError := true, protocolError := true, dataReleasePending := true
        state := .dataErrorRelease }
    else if !p.taN then
      if s.beatCount = 3 then
        { b with
          finalReleaseStarted := true, releaseOeCycle := true, dataReleasePending := true
          state := .beatConfirm }
      else { b with state := .beatConfirm }
    else b
  | .beatConfirm =>
    let b := { b with dataReleasePending := false, releaseOeCycle := false }
    if !p.teaN then dataError s b
    else if !p.drtryN then { b with state := if !p.taN then .beatConfirm else .beatReplacement }
    else if s.beatCount = 3 then { b with rspError := false, rspValid := true, state := .idle }
    else
      let b := { b with beatCount := s.beatCount + 1 }
      if !p.taN then
        if s.beatCount = 2 then
          { b with
            finalReleaseStarted := true, releaseOeCycle := true, dataReleasePending := true
            state := .beatConfirm }
        else { b with state := .beatConfirm }
      else { b with state := .dataWait }
  | .beatReplacement =>
    let b := { b with releaseOeCycle := false }
    if !p.teaN then dataError s b
    else if p.drtryN then dataError s { b with protocolError := true }
    else if !p.taN then { b with state := .beatConfirm }
    else b
  | .dataErrorRelease =>
    { b with
      dataReleasePending := false, releaseOeCycle := false, rspValid := true, rspError := true
      state := .idle }

/-- The clock edge. -/
def step : State :=
  let provisional := if i.busCe && !i.pins.taN then i.d else s.provisional
  let line := if i.busCe then lineNext s i else s.line
  let slow := s.slow || !i.busCe
  if !i.rstN then { reset s with provisional := provisional, line := line, slow := slow }
  else if i.busCe then
    { edge s i with
      provisional := provisional, line := line, slow := slow
      idle := s.state = .idle && !s.rspValid }
  else { s with slow := slow }

end Signals

/-- The machine: it starts from a reset. -/
def machine : Machine State Input where
  Initial s := ∃ s₀, s = reset s₀
  step := step

/-! ## What a request is given -/

/-- The last request accepted, the bus edges of its data tenure, and what it has been given. -/
structure Log where
  live : Bool
  req : Input
  edges : List (Answer (BitVec 64))
  /-- The responses taken. -/
  taken : ℕ
  /-- Its last address tenure was retried. -/
  retried : Bool
  /-- AACK came with TS. -/
  aborted : Bool

/-- Nothing accepted. -/
def Log.start : Log := ⟨false, {}, [], 0, false, false⟩

/-- The data tenure of a read. -/
def Phase.reads : Phase → Bool
  | .dataWait | .beatConfirm | .beatReplacement => true
  | _ => false

/-- The log over a clock edge. -/
def Log.update (l : Log) (s : State) (i : Input) : Log :=
  if !i.rstN then .start
  else if !i.busCe then l
  else if accepts s i then ⟨true, i, [], 0, false, false⟩
  else
    { l with
      edges := if s.state.reads then l.edges ++ [i.pins.answer i.d] else l.edges
      taken := if s.rspValid && i.rspReady then l.taken + 1 else l.taken
      retried :=
        if s.state = .addrRetrySample then !i.pins.artryN
        else if s.state = .addrTransfer then false else l.retried
      aborted := l.aborted || (s.state = .addrTransfer && !i.pins.aackN) }

/-- The attributes of a request. -/
def attributes (q : Input) : Attributes where
  a := q.reqLineAddr + (0#27 ++ q.reqCriticalDw ++ 0#3)
  tt := 0b01110
  tbstN := false
  tsiz := 0b010
  tc := if q.reqInstruction then 0b10 else 0b00
  ciN := true
  wtN := true
  gblN := !q.reqGbl
  cse := 0

/-- The doublewords of a line from the critical one on, with wraparound. -/
def burst (critical : BitVec 2) (line : BitVec 256) (n : ℕ) : List (BitVec 64) :=
  (List.range n).map fun k => slot line (critical + BitVec.ofNat 2 k)

/-- The next doubleword of a burst goes to its slot. -/
theorem burst_insert (c : BitVec 2) (line : BitVec 256) (v : BitVec 64) {n : ℕ} (hn : n < 4) :
    burst c (insertDoubleword line (c + BitVec.ofNat 2 n) v) (n + 1) = burst c line n ++ [v] := by
  have hdiff : ∀ k < n, c + BitVec.ofNat 2 k ≠ c + BitVec.ofNat 2 n := by
    intro k hk heq
    have hsame := congrArg BitVec.toNat ((BitVec.add_right_inj c).1 heq)
    rw [BitVec.toNat_ofNat, BitVec.toNat_ofNat] at hsame
    omega
  rw [burst, burst, List.range_succ, List.map_append, List.map_singleton, slot_insertDoubleword,
    if_pos rfl]
  congr 1
  refine List.map_congr_left fun k hk => ?_
  rw [slot_insertDoubleword, if_neg (hdiff k (List.mem_range.1 hk))]

section Inv

/-- The registers hold the request. -/
structure Holds (s : State) (q : Input) : Prop where
  aligned : misaligned q = false
  startAddr : s.startAddr = (attributes q).a
  criticalDw : s.criticalDw = q.reqCriticalDw
  instruction : s.instruction = q.reqInstruction
  gbl : s.gbl = q.reqGbl

/-- The line holds the beats that stand. -/
def Stored (s : State) (l : Log) : Prop :=
  standing l.edges = burst l.req.reqCriticalDw s.line (standing l.edges).length

/-- A request that waits for data. -/
structure Open (s : State) (l : Log) : Prop where
  live : l.live = true
  taken : l.taken = 0
  rspValid : s.rspValid = false
  holds : Holds s l.req

/-- A request whose data tenure has not begun. -/
structure Asking (s : State) (l : Log) : Prop where
  edges : l.edges = []
  beat : s.beatCount = 0

/-- A data tenure whose reader is in a phase. -/
structure Reading (phase : Reader.Phase (BitVec 64)) (s : State) (l : Log) : Prop where
  retried : l.retried = false
  follows : Reader.Follows 4 l.edges
  phase : (Reader.run 4 l.edges).phase = phase
  beat : s.beatCount.toNat = (standing l.edges).length
  stored : Stored s l

/-- Why a request failed. -/
def Failed (l : Log) : Prop :=
  misaligned l.req = true ∨ l.aborted = true ∨ (Reader.run 4 l.edges).phase = .failed

/-- A request that has its response. -/
structure Ended (s : State) (l : Log) : Prop where
  once : l.taken + (if s.rspValid then 1 else 0) = 1
  retried : l.retried = false
  line : s.rspValid = true → s.rspError = false →
    standing l.edges = burst l.req.reqCriticalDw s.line 4
  error : s.rspValid = true → s.rspError = true → s.line = 0 ∧ Failed l

/-- The registers against the log, in a state. -/
def Phase.Inv (s : State) (l : Log) : Phase → Prop
  | .idle => if l.live then Ended s l else s.rspValid = false
  | .addrRequest | .retryGap | .addrTransfer => Open s l ∧ Asking s l
  | .addrWait | .addrRetrySample | .dataRequest =>
    Open s l ∧ Asking s l ∧ l.retried = false
  | .addrAbort => Open s l ∧ l.retried = false ∧ l.aborted = true
  | .dataWait => Open s l ∧ Reading .waiting s l
  | .beatConfirm => Open s l ∧ Reading (.held s.provisional) s l
  | .beatReplacement => Open s l ∧ Reading .replacing s l
  | .dataErrorRelease =>
    Open s l ∧ l.retried = false ∧ (Reader.run 4 l.edges).phase = .failed

/-- The registers against the log. -/
def Inv (s : State) (l : Log) : Prop := s.state.Inv s l

variable {s : State} {i : Input} {l : Log}

theorem accepts_spec (h : accepts s i = true) : s.state = .idle ∧ s.rspValid = false := by
  simp only [accepts, reqReady, Bool.and_eq_true, decide_eq_true_eq, Bool.not_eq_true'] at h
  exact ⟨h.2.1.2, h.2.2⟩

theorem dataError_rspError (b : State) : (dataError s b).rspError = true := by
  unfold dataError
  split_ifs <;> rfl

theorem dataError_state (b : State) :
    (dataError s b).state = .dataErrorRelease ∨ (dataError s b).state = .idle := by
  unfold dataError
  split_ifs
  · exact Or.inr rfl
  · exact Or.inl rfl

theorem step_bus (hr : i.rstN = true) (hb : i.busCe = true) : step s i =
    { edge s i with
      provisional := if !i.pins.taN then i.d else s.provisional, line := lineNext s i
      slow := s.slow, idle := s.state = .idle && !s.rspValid } := by
  simp [step, hr, hb]

/-- The log of a request over a bus edge. -/
theorem update_bus (hr : i.rstN = true) (hb : i.busCe = true) (hs : s.state ≠ .idle) :
    l.update s i =
      { l with
        edges := if s.state.reads then l.edges ++ [i.pins.answer i.d] else l.edges
        taken := if s.rspValid && i.rspReady then l.taken + 1 else l.taken
        retried :=
          if s.state = .addrRetrySample then !i.pins.artryN
          else if s.state = .addrTransfer then false else l.retried
        aborted := l.aborted || (s.state = .addrTransfer && !i.pins.aackN) } := by
  have hno : accepts s i = false := by
    by_contra ha
    exact hs (accepts_spec (by simpa using ha)).1
  simp [Log.update, hr, hb, hno]

/-- A request under way keeps its registers, and has its response as it ends. -/
theorem edge_under (hs : s.state ≠ .idle) (hv : s.rspValid = false) :
    (edge s i).startAddr = s.startAddr ∧ (edge s i).criticalDw = s.criticalDw ∧
      (edge s i).instruction = s.instruction ∧ (edge s i).gbl = s.gbl ∧
      (edge s i).rspValid = decide ((edge s i).state = .idle) := by
  unfold edge dataError
  cases hstate : s.state with
  | idle => exact absurd hstate hs
  | _ =>
    dsimp only
    split_ifs <;> simp [hv]

section Frame

variable (hr : i.rstN = true) (hb : i.busCe = true) (hs : s.state ≠ .idle)
include hr hb hs

/-- The log of a data tenure. -/
theorem update_reads (hreads : s.state.reads = true) :
    (l.update s i).edges = l.edges ++ [i.pins.answer i.d] ∧ (l.update s i).retried = l.retried ∧
      (l.update s i).req = l.req := by
  rw [update_bus hr hb hs, hreads]
  cases hstate : s.state with
  | dataWait => exact ⟨rfl, rfl, rfl⟩
  | beatConfirm => exact ⟨rfl, rfl, rfl⟩
  | beatReplacement => exact ⟨rfl, rfl, rfl⟩
  | _ =>
    rw [hstate] at hreads
    cases hreads

/-- A request still asks after an edge of its address tenure. -/
theorem asking_step (h : Asking s l)
    (ha : s.state = .addrRequest ∨ s.state = .retryGap ∨ s.state = .addrTransfer ∨
      s.state = .addrWait ∨ s.state = .addrRetrySample ∨ s.state = .dataRequest) :
    Asking (step s i) (l.update s i) := by
  have hkeeps : (edge s i).beatCount = s.beatCount := by
    unfold edge
    rcases ha with ha | ha | ha | ha | ha | ha <;> rw [ha] <;> dsimp only <;> split_ifs <;> rfl
  have hreads : s.state.reads = false := by
    rcases ha with ha | ha | ha | ha | ha | ha <;> rw [ha] <;> rfl
  rw [step_bus hr hb, update_bus hr hb hs, hreads]
  exact ⟨h.edges, hkeeps.trans h.beat⟩

/-- A data tenure that goes on after an edge. -/
theorem reading_step {phase x : Reader.Phase (BitVec 64)} (h : Reading phase s l)
    (hreads : s.state.reads = true) (hlive : phase.live = true)
    (hx : (Reader.run 4 (l.update s i).edges).phase = x)
    (hbeat : (edge s i).beatCount.toNat = (standing (l.update s i).edges).length)
    (hstored : standing (l.update s i).edges =
      burst l.req.reqCriticalDw (lineNext s i) (standing (l.update s i).edges).length) :
    Reading x (step s i) (l.update s i) := by
  obtain ⟨hedges, hretried, hreq⟩ := update_reads (l := l) hr hb hs hreads
  refine ⟨hretried.trans h.retried, ?_, hx, ?_, ?_⟩
  · rw [hedges]
    exact h.follows.concat (by rwa [h.phase]) _
  · rw [step_bus hr hb]
    exact hbeat
  · rw [Stored, hreq, step_bus hr hb]
    exact hstored

end Frame

section Bus

variable (hr : i.rstN = true) (hb : i.busCe = true) (ho : Open s l) (hs : s.state ≠ .idle)
include hr hb ho hs

theorem taken_under : (l.update s i).taken = 0 := by
  rw [update_bus hr hb hs, ho.rspValid]
  exact ho.taken

/-- **A request under way stays so until it ends.** -/
theorem open_step (hgoes : (edge s i).state ≠ .idle) : Open (step s i) (l.update s i) := by
  have hrsp := ho.rspValid
  obtain ⟨h1, h2, h3, h4, h5⟩ := edge_under (i := i) hs hrsp
  have hstep := step_bus (s := s) hr hb
  have hreq : (l.update s i).req = l.req ∧ (l.update s i).live = l.live := by
    rw [update_bus hr hb hs]
    exact ⟨rfl, rfl⟩
  have hq := ho.holds
  refine ⟨hreq.2.trans ho.live, taken_under hr hb ho hs, ?_, ?_⟩
  · rw [hstep]
    exact h5.trans (decide_eq_false hgoes)
  · rw [hreq.1, hstep]
    exact ⟨hq.aligned, h1.trans hq.startAddr, h2.trans hq.criticalDw, h3.trans hq.instruction,
      h4.trans hq.gbl⟩

theorem inv_of_state {x : Phase} (hx : (edge s i).state = x) (hgoes : x ≠ .idle)
    (h : Open (step s i) (l.update s i) → x.Inv (step s i) (l.update s i)) :
    Inv (step s i) (l.update s i) := by
  have hst : (step s i).state = x := by rw [step_bus hr hb, hx]
  rw [Inv, hst]
  exact h (open_step hr hb ho hs (by rwa [hx]))

/-- **An address tenure.** -/
theorem inv_address (hask : Asking s l)
    (ha : s.state = .addrRequest ∨ s.state = .retryGap ∨ s.state = .addrTransfer ∨
      ((s.state = .addrWait ∨ s.state = .addrRetrySample ∨ s.state = .dataRequest) ∧
        l.retried = false)) :
    Inv (step s i) (l.update s i) := by
  have hlog := update_bus (l := l) hr hb hs
  have hgo {x : Phase} := inv_of_state (x := x) hr hb ho hs
  have hstill := asking_step hr hb hs hask (by tauto)
  rcases ha with ha | ha | ha | ⟨ha | ha | ha, hret⟩
  · by_cases hg : i.pins.granted = true
    · exact hgo (x := .addrTransfer) (by simp [edge, ha, hg]) (by decide) fun h => ⟨h, hstill⟩
    · exact hgo (x := .addrRequest) (by simp [edge, ha, hg]) (by decide) fun h => ⟨h, hstill⟩
  · exact hgo (x := .addrRequest) (by simp [edge, ha]) (by decide) fun h => ⟨h, hstill⟩
  · have hretried : (l.update s i).retried = false := by rw [hlog]; simp [ha]
    by_cases hg : i.pins.aackN = true
    · exact hgo (x := .addrWait) (by simp [edge, ha, hg]) (by decide) fun h => ⟨h, hstill, hretried⟩
    · have haborted : (l.update s i).aborted = true := by rw [hlog]; simp [ha, hg]
      exact hgo (x := .addrAbort) (by simp [edge, ha, hg]) (by decide)
        fun h => ⟨h, hretried, haborted⟩
  · have hretried : (l.update s i).retried = false := by rw [hlog]; simp [ha, hret]
    by_cases hg : i.pins.aackN = true
    · exact hgo (x := .addrWait) (by simp [edge, ha, hg]) (by decide) fun h => ⟨h, hstill, hretried⟩
    · exact hgo (x := .addrRetrySample) (by simp [edge, ha, hg]) (by decide)
        fun h => ⟨h, hstill, hretried⟩
  · by_cases hg : i.pins.artryN = true
    · have hretried : (l.update s i).retried = false := by rw [hlog]; simp [ha, hg]
      exact hgo (x := .dataRequest) (by simp [edge, ha, hg]) (by decide)
        fun h => ⟨h, hstill, hretried⟩
    · exact hgo (x := .retryGap) (by simp [edge, ha, hg]) (by decide) fun h => ⟨h, hstill⟩
  · have hretried : (l.update s i).retried = false := by rw [hlog]; simp [ha, hret]
    by_cases hg : i.pins.dataGranted = true
    · refine hgo (x := .dataWait) (by simp [edge, ha, hg]) (by decide) fun h => ⟨h, ?_⟩
      have hstored : Stored (step s i) (l.update s i) := by rw [Stored, hstill.edges]; rfl
      refine ⟨hretried, ?_, ?_, ?_, hstored⟩ <;> rw [hstill.edges]
      · exact Reader.follows_nil (by decide)
      · rfl
      · rw [hstill.beat]
        rfl
    · exact hgo (x := .dataRequest) (by simp [edge, ha, hg]) (by decide)
        fun h => ⟨h, hstill, hretried⟩

/-- A request that ends has its response. -/
theorem inv_ends (hx : (edge s i).state = .idle) (hret : (l.update s i).retried = false)
    (hline : (edge s i).rspError = false →
      standing (l.update s i).edges = burst l.req.reqCriticalDw (lineNext s i) 4)
    (herror : (edge s i).rspError = true → lineNext s i = 0 ∧ Failed (l.update s i)) :
    Inv (step s i) (l.update s i) := by
  have hvalid : (step s i).rspValid = true := by
    rw [step_bus hr hb]
    exact (edge_under hs ho.rspValid).2.2.2.2.trans (decide_eq_true hx)
  have hstate : (step s i).state = .idle := by rw [step_bus hr hb, hx]
  have hlive : (l.update s i).live = true := by
    rw [update_bus hr hb hs]
    exact ho.live
  have hreq : (l.update s i).req = l.req := by rw [update_bus hr hb hs]
  rw [Inv, hstate, Phase.Inv, if_pos hlive]
  refine ⟨?_, hret, fun _ he => ?_, fun _ he => ?_⟩
  · rw [taken_under hr hb ho hs, hvalid, if_pos rfl]
  · rw [step_bus hr hb] at he ⊢
    rw [hreq]
    exact hline he
  · rw [step_bus hr hb] at he ⊢
    exact herror he

/-- **An edge of the data tenure.** -/
theorem inv_reads {phase : Reader.Phase (BitVec 64)} (h : Reading phase s l)
    (hphase : (s.state = .dataWait ∧ phase = .waiting) ∨
      (s.state = .beatConfirm ∧ phase = .held s.provisional) ∨
      (s.state = .beatReplacement ∧ phase = .replacing)) :
    Inv (step s i) (l.update s i) := by
  have hreads : s.state.reads = true := by
    rcases hphase with ⟨hp, -⟩ | ⟨hp, -⟩ | ⟨hp, -⟩ <;> rw [hp] <;> rfl
  have hlive : phase.live = true := by rcases hphase with ⟨-, rfl⟩ | ⟨-, rfl⟩ | ⟨-, rfl⟩ <;> rfl
  obtain ⟨hedges, hretried, hreq⟩ := update_reads (l := l) hr hb hs hreads
  have hret : (l.update s i).retried = false := hretried.trans h.retried
  have hfollows : Reader.Follows 4 (l.update s i).edges := by
    rw [hedges]
    exact h.follows.concat (by rwa [h.phase]) _
  have hrun : Reader.run 4 (l.update s i).edges =
      Reader.take 4 (Reader.run 4 l.edges) (i.pins.answer i.d) := by
    rw [hedges, Reader.run_concat]
  have hgo {x : Phase} := inv_of_state (x := x) hr hb ho hs
  -- an edge that ends in an error
  have hfails : (Reader.run 4 (l.update s i).edges).phase = .failed → lineNext s i = 0 →
      (edge s i).rspError = true →
      (edge s i).state = .dataErrorRelease ∨ (edge s i).state = .idle →
      Inv (step s i) (l.update s i) := by
    rintro hf hline herr (hx | hx)
    · exact hgo hx (by decide) fun hopen => ⟨hopen, hret, hf⟩
    · exact inv_ends hr hb ho hs hx hret (fun hno => by rw [herr] at hno; cases hno)
        fun _ => ⟨hline, Or.inr (Or.inr hf)⟩
  -- an edge that keeps no word
  have hkeeps : ∀ {x}, (Reader.run 4 (l.update s i).edges).phase = x →
      (Reader.run 4 (l.update s i).edges).kept = (Reader.run 4 l.edges).kept →
      lineNext s i = s.line → (edge s i).beatCount = s.beatCount →
      Reading x (step s i) (l.update s i) := by
    intro x hx hkept hline hbeat
    have hsame : standing (l.update s i).edges = standing l.edges := by
      rw [← hfollows.kept, hkept, h.follows.kept]
    refine reading_step hr hb hs h hreads hlive hx ?_ ?_
    · rw [hbeat, hsame]
      exact h.beat
    · rw [hsame, hline]
      exact h.stored
  rw [Reader.take, h.phase] at hrun
  cases htea : i.pins.teaN with
  | false =>
    -- TEA ends it whatever the state
    have habort : (i.pins.answer i.d).abort = true := by simp [MasterIn.answer, htea]
    refine hfails ?_ ?_ ?_ ?_
    · rw [hrun]
      rcases hphase with ⟨-, rfl⟩ | ⟨-, rfl⟩ | ⟨-, rfl⟩ <;> simp [habort]
    · rcases hphase with ⟨hp, -⟩ | ⟨hp, -⟩ | ⟨hp, -⟩ <;> simp [lineNext, lineClear, hp, htea]
    · rcases hphase with ⟨hp, -⟩ | ⟨hp, -⟩ | ⟨hp, -⟩ <;>
        simp [edge, hp, htea, dataError_rspError]
    · rcases hphase with ⟨hp, -⟩ | ⟨hp, -⟩ | ⟨hp, -⟩ <;> simp [edge, hp, htea, dataError_state]
  | true =>
    have habort : (i.pins.answer i.d).abort = false := by simp [MasterIn.answer, htea]
    have hcancel : (i.pins.answer i.d).cancel = !i.pins.drtryN := rfl
    have hoffer : (i.pins.answer i.d).offer = !i.pins.taN := rfl
    have hword : (i.pins.answer i.d).word = i.d := rfl
    -- the candidate is what the last TA brought
    have hprovisional : i.pins.taN = false → (step s i).provisional = i.d := by
      intro hta
      rw [step_bus hr hb, hta]
      rfl
    rcases hphase with ⟨hp, rfl⟩ | ⟨hp, rfl⟩ | ⟨hp, rfl⟩
    · cases hdrtry : i.pins.drtryN with
      | false =>
        refine hfails ?_ ?_ ?_ (Or.inl ?_)
        · rw [hrun]
          simp [hcancel, hdrtry]
        · simp [lineNext, lineClear, hp, hdrtry]
        · simp [edge, hp, htea, hdrtry]
        · simp [edge, hp, htea, hdrtry]
      | true =>
        have hline : lineNext s i = s.line := by
          simp [lineNext, lineClear, lineCommit, hp, htea, hdrtry]
        simp only [habort, hcancel, hdrtry, Bool.not_true, Bool.or_self, Bool.false_eq_true,
          if_false, Reader.resume, hoffer, hword] at hrun
        have hbeat : (edge s i).beatCount = s.beatCount := by
          simp only [edge, hp, htea, hdrtry]
          split_ifs <;> rfl
        cases hta : i.pins.taN with
        | true =>
          refine hgo (x := .dataWait) (by simp [edge, hp, htea, hdrtry, hta]) (by decide)
            fun hopen => ⟨hopen, hkeeps ?_ ?_ hline hbeat⟩
          · rw [hrun, hta]
            rfl
          · rw [hrun]
        | false =>
          have hx : (edge s i).state = .beatConfirm := by
            simp only [edge, hp, htea, hdrtry, hta]
            split_ifs <;> first | rfl | simp_all
          refine hgo hx (by decide) fun hopen => ⟨hopen, hkeeps ?_ ?_ hline hbeat⟩
          · rw [hrun, hta, hprovisional hta]
            rfl
          · rw [hrun]
    · cases hdrtry : i.pins.drtryN with
      | false =>
        have hline : lineNext s i = s.line := by
          simp [lineNext, lineClear, lineCommit, hp, htea, hdrtry]
        simp only [habort, hcancel, hdrtry, Bool.not_false, Bool.false_eq_true, if_false, if_true,
          Reader.replace, hoffer, hword] at hrun
        have hbeat : (edge s i).beatCount = s.beatCount := by simp [edge, hp, htea, hdrtry]
        cases hta : i.pins.taN with
        | true =>
          refine hgo (x := .beatReplacement) (by simp [edge, hp, htea, hdrtry, hta]) (by decide)
            fun hopen => ⟨hopen, hkeeps ?_ ?_ hline hbeat⟩
          · rw [hrun, hta]
            rfl
          · rw [hrun]
        | false =>
          refine hgo (x := .beatConfirm) (by simp [edge, hp, htea, hdrtry, hta]) (by decide)
            fun hopen => ⟨hopen, hkeeps ?_ ?_ hline hbeat⟩
          · rw [hrun, hta, hprovisional hta]
            rfl
          · rw [hrun]
      | true =>
        have hline : lineNext s i =
            insertDoubleword s.line (s.criticalDw + s.beatCount) s.provisional := by
          simp [lineNext, lineClear, lineCommit, hp, htea, hdrtry]
        have hlen : (Reader.run 4 l.edges).kept.length = s.beatCount.toNat := by
          rw [h.follows.kept, h.beat]
        have hkept : (Reader.run 4 (l.update s i).edges).kept =
            (Reader.run 4 l.edges).kept ++ [s.provisional] := by
          rw [hrun]
          simp only [habort, hcancel, hdrtry, Bool.not_true, Bool.false_eq_true, if_false]
          split_ifs <;> rfl
        have hstanding : standing (l.update s i).edges = standing l.edges ++ [s.provisional] := by
          rw [← hfollows.kept, hkept, h.follows.kept]
        have hstored : standing (l.update s i).edges =
            burst l.req.reqCriticalDw (lineNext s i) (s.beatCount.toNat + 1) := by
          have hback : BitVec.ofNat 2 s.beatCount.toNat = s.beatCount := by simp
          have hinsert := burst_insert s.criticalDw s.line s.provisional s.beatCount.isLt
          have hold : standing l.edges = burst s.criticalDw s.line s.beatCount.toNat := by
            rw [h.beat, ho.holds.criticalDw]
            exact h.stored
          rw [hback] at hinsert
          rw [hstanding, hold, hline, ← ho.holds.criticalDw, hinsert]
        have hsucc : (standing (l.update s i).edges).length = s.beatCount.toNat + 1 := by
          rw [hstanding, List.length_append, ← h.beat]
          rfl
        simp only [habort, hcancel, hdrtry, Bool.not_true, Bool.false_eq_true, if_false, hlen]
          at hrun
        by_cases hlast : s.beatCount = 3
        · refine inv_ends hr hb ho hs (by simp [edge, hp, htea, hdrtry, hlast]) hret (fun _ => ?_)
            fun herr => ?_
          · rw [hstored, hlast]
            rfl
          · simp [edge, hp, htea, hdrtry, hlast] at herr
        · have hne : s.beatCount.toNat + 1 ≠ 4 := by
            intro h4
            exact hlast (BitVec.eq_of_toNat_eq (show s.beatCount.toNat = 3 by omega))
          have hbeat : (edge s i).beatCount.toNat = (standing (l.update s i).edges).length := by
            have hplus : (edge s i).beatCount = s.beatCount + 1 := by
              simp only [edge, hp, htea, hdrtry, hlast]
              split_ifs <;> first | rfl | simp_all
            have hone : (1 : BitVec 2).toNat = 1 := rfl
            have hlt := s.beatCount.isLt
            rw [hplus, hsucc, BitVec.toNat_add, hone]
            omega
          rw [if_neg hne] at hrun
          have hgoes : ∀ {x}, (Reader.run 4 (l.update s i).edges).phase = x →
              Reading x (step s i) (l.update s i) := fun hx =>
            reading_step hr hb hs h hreads hlive hx hbeat (by rw [hsucc]; exact hstored)
          cases hta : i.pins.taN with
          | true =>
            have hx : (edge s i).state = .dataWait := by
              simp only [edge, hp, htea, hdrtry, hta, hlast]
              split_ifs <;> first | rfl | simp_all
            refine hgo hx (by decide) fun hopen => ⟨hopen, hgoes ?_⟩
            rw [hrun, Reader.resume, hoffer, hta]
            rfl
          | false =>
            have hx : (edge s i).state = .beatConfirm := by
              simp only [edge, hp, htea, hdrtry, hta, hlast]
              split_ifs <;> first | rfl | simp_all
            refine hgo hx (by decide) fun hopen => ⟨hopen, hgoes ?_⟩
            rw [hrun, Reader.resume, hoffer, hta, hprovisional hta, ← hword]
            rfl
    · cases hdrtry : i.pins.drtryN with
      | true =>
        refine hfails ?_ ?_ ?_ ?_
        · rw [hrun]
          simp [hcancel, hdrtry]
        · simp [lineNext, lineClear, hp, hdrtry]
        · simp [edge, hp, htea, hdrtry, dataError_rspError]
        · simp [edge, hp, htea, hdrtry, dataError_state]
      | false =>
        have hline : lineNext s i = s.line := by
          simp [lineNext, lineClear, lineCommit, hp, htea, hdrtry]
        simp only [habort, hcancel, hdrtry, Bool.not_false, Bool.not_true, Bool.or_self,
          Bool.false_eq_true, if_false, Reader.replace, hoffer, hword] at hrun
        have hbeat : (edge s i).beatCount = s.beatCount := by
          simp only [edge, hp, htea, hdrtry]
          split_ifs <;> first | rfl | simp_all
        cases hta : i.pins.taN with
        | true =>
          refine hgo (x := .beatReplacement) (by simp [edge, hp, htea, hdrtry, hta]) (by decide)
            fun hopen => ⟨hopen, hkeeps ?_ ?_ hline hbeat⟩
          · rw [hrun, hta]
            rfl
          · rw [hrun]
        | false =>
          refine hgo (x := .beatConfirm) (by simp [edge, hp, htea, hdrtry, hta]) (by decide)
            fun hopen => ⟨hopen, hkeeps ?_ ?_ hline hbeat⟩
          · rw [hrun, hta, hprovisional hta]
            rfl
          · rw [hrun]

end Bus

/-- **An edge with no request under way.** -/
theorem inv_idle (h : Inv s l) (hr : i.rstN = true) (hb : i.busCe = true) (hs : s.state = .idle) :
    Inv (step s i) (l.update s i) := by
  rw [Inv, hs, Phase.Inv] at h
  cases ha : accepts s i with
  | true =>
    have hlog : l.update s i = ⟨true, i, [], 0, false, false⟩ := by simp [Log.update, hr, hb, ha]
    cases hm : misaligned i with
    | true =>
      have hstep : (step s i).state = .idle ∧ (step s i).rspValid = true ∧
          (step s i).rspError = true ∧ (step s i).line = 0 := by
        rw [step_bus hr hb]
        simp [edge, hs, ha, hm, lineNext, lineClear]
      rw [Inv, hstep.1, hlog, Phase.Inv, if_pos rfl]
      refine ⟨by rw [hstep.2.1]; rfl, rfl, fun _ he => ?_, fun _ _ => ⟨hstep.2.2.2, Or.inl hm⟩⟩
      rw [hstep.2.2.1] at he
      cases he
    | false =>
      have hv := (accepts_spec ha).2
      have hstep : step s i = { step s i with
          state := .addrRequest, rspValid := false, beatCount := 0
          startAddr := (attributes i).a, criticalDw := i.reqCriticalDw
          instruction := i.reqInstruction, gbl := i.reqGbl } := by
        rw [step_bus hr hb]
        simp [edge, hs, ha, hm, hv, attributes]
      rw [hstep, hlog]
      exact ⟨⟨rfl, rfl, rfl, hm, rfl, rfl, rfl, rfl⟩, rfl, rfl⟩
  | false =>
    have hlog : l.update s i =
        { l with taken := if s.rspValid && i.rspReady then l.taken + 1 else l.taken } := by
      simp [Log.update, hr, hb, ha, hs, Phase.reads]
    have hstep : (step s i).state = .idle ∧ (step s i).rspValid = (s.rspValid && !i.rspReady) ∧
        (step s i).rspError = s.rspError ∧ (step s i).line = s.line := by
      rw [step_bus hr hb]
      simp [edge, hs, ha, lineNext, lineClear, lineCommit]
    rw [Inv, hstep.1, hlog, Phase.Inv]
    cases hl : l.live with
    | false =>
      rw [hl, if_neg Bool.false_ne_true] at h
      rw [if_neg Bool.false_ne_true, hstep.2.1, h]
      rfl
    | true =>
      rw [hl, if_pos rfl] at h
      rw [if_pos rfl]
      refine ⟨?_, h.retried, fun hv he => ?_, fun hv he => ?_⟩
      · have honce := h.once
        rw [hstep.2.1]
        cases hv : s.rspValid <;> cases i.rspReady <;> simp_all
      · rw [hstep.2.1, Bool.and_eq_true] at hv
        rw [hstep.2.2.1] at he
        rw [hstep.2.2.2]
        exact h.line hv.1 he
      · rw [hstep.2.1, Bool.and_eq_true] at hv
        rw [hstep.2.2.1] at he
        rw [hstep.2.2.2]
        exact h.error hv.1 he

/-- A cycle between bus edges. -/
theorem inv_slow (h : Inv s l) (slow : Bool) : Inv { s with slow := slow } l := by
  have hopen : Open s l → Open { s with slow := slow } l := fun h =>
    ⟨h.live, h.taken, h.rspValid, h.holds.aligned, h.holds.startAddr, h.holds.criticalDw,
      h.holds.instruction, h.holds.gbl⟩
  have hask : Asking s l → Asking { s with slow := slow } l := fun h => ⟨h.edges, h.beat⟩
  have hread : ∀ {x}, Reading x s l → Reading x { s with slow := slow } l := fun h =>
    ⟨h.retried, h.follows, h.phase, h.beat, h.stored⟩
  have hphase : ∀ x : Phase, x.Inv s l → x.Inv { s with slow := slow } l := by
    intro x h
    cases x with
    | idle =>
      rw [Phase.Inv] at h ⊢
      split_ifs at h ⊢
      · exact ⟨h.once, h.retried, h.line, h.error⟩
      · exact h
    | addrRequest | retryGap | addrTransfer => exact ⟨hopen h.1, hask h.2⟩
    | addrWait | addrRetrySample | dataRequest => exact ⟨hopen h.1, hask h.2.1, h.2.2⟩
    | addrAbort | dataErrorRelease => exact ⟨hopen h.1, h.2⟩
    | dataWait | beatConfirm | beatReplacement => exact ⟨hopen h.1, hread h.2⟩
  exact hphase _ h

/-- **A clock edge.** -/
theorem inv_step (h : Inv s l) : Inv (step s i) (l.update s i) := by
  cases hr : i.rstN with
  | false =>
    have hstep : (step s i).state = .idle ∧ (step s i).rspValid = false := by simp [step, hr, reset]
    rw [Inv, hstep.1, Log.update, hr]
    exact hstep.2
  | true =>
    cases hb : i.busCe with
    | false =>
      have hlog : l.update s i = l := by simp [Log.update, hr, hb]
      have hstep : step s i = { s with slow := true } := by simp [step, hr, hb]
      rw [hlog, hstep]
      exact inv_slow h true
    | true =>
      have hinv : s.state.Inv s l := h
      cases hs : s.state with
      | idle => exact inv_idle h hr hb hs
      | addrRequest =>
        rw [hs] at hinv
        exact inv_address hr hb hinv.1 (by rw [hs]; decide) hinv.2 (Or.inl hs)
      | retryGap =>
        rw [hs] at hinv
        exact inv_address hr hb hinv.1 (by rw [hs]; decide) hinv.2 (Or.inr (Or.inl hs))
      | addrTransfer =>
        rw [hs] at hinv
        exact inv_address hr hb hinv.1 (by rw [hs]; decide) hinv.2 (Or.inr (Or.inr (Or.inl hs)))
      | addrWait =>
        rw [hs] at hinv
        exact inv_address hr hb hinv.1 (by rw [hs]; decide) hinv.2.1
          (Or.inr (Or.inr (Or.inr ⟨Or.inl hs, hinv.2.2⟩)))
      | addrRetrySample =>
        rw [hs] at hinv
        exact inv_address hr hb hinv.1 (by rw [hs]; decide) hinv.2.1
          (Or.inr (Or.inr (Or.inr ⟨Or.inr (Or.inl hs), hinv.2.2⟩)))
      | dataRequest =>
        rw [hs] at hinv
        exact inv_address hr hb hinv.1 (by rw [hs]; decide) hinv.2.1
          (Or.inr (Or.inr (Or.inr ⟨Or.inr (Or.inr hs), hinv.2.2⟩)))
      | dataWait =>
        rw [hs] at hinv
        exact inv_reads hr hb hinv.1 (by rw [hs]; decide) hinv.2 (Or.inl ⟨hs, rfl⟩)
      | beatConfirm =>
        rw [hs] at hinv
        exact inv_reads hr hb hinv.1 (by rw [hs]; decide) hinv.2 (Or.inr (Or.inl ⟨hs, rfl⟩))
      | beatReplacement =>
        rw [hs] at hinv
        exact inv_reads hr hb hinv.1 (by rw [hs]; decide) hinv.2 (Or.inr (Or.inr ⟨hs, rfl⟩))
      | addrAbort =>
        rw [hs] at hinv
        obtain ⟨hopen, hret, habort⟩ := hinv
        have hno : s.state ≠ .idle := by rw [hs]; decide
        have hlog := update_bus (l := l) hr hb hno
        refine inv_ends hr hb hopen hno (by simp [edge, hs]) (by rw [hlog]; simp [hs, hret])
          (fun he => by simp [edge, hs] at he) fun _ => ⟨by simp [lineNext, lineClear, hs], ?_⟩
        refine Or.inr (Or.inl ?_)
        rw [hlog]
        simp [habort]
      | dataErrorRelease =>
        rw [hs] at hinv
        obtain ⟨hopen, hret, hfailed⟩ := hinv
        have hno : s.state ≠ .idle := by rw [hs]; decide
        have hlog := update_bus (l := l) hr hb hno
        refine inv_ends hr hb hopen hno (by simp [edge, hs]) (by rw [hlog]; simp [hs, hret])
          (fun he => by simp [edge, hs] at he) fun _ => ⟨by simp [lineNext, lineClear, hs], ?_⟩
        refine Or.inr (Or.inr ?_)
        rw [hlog]
        simpa [hs, Phase.reads] using hfailed

end Inv

/-! ## Over a run -/

/-- What the last request accepted has been given. -/
structure Delivers (s : State) (i : Input) (l : Log) : Prop where
  /-- It has no response while it is under way, and one after. -/
  once : l.live = true →
    l.taken + (if s.rspValid then 1 else 0) = if s.state = .idle then 1 else 0
  none : l.live = false → s.rspValid = false
  /-- The beats stored are those that stand, from the critical doubleword on. -/
  beats : s.state.reads = true →
    standing l.edges = burst l.req.reqCriticalDw s.line (standing l.edges).length
  /-- A response without an error is the four beats that stand. -/
  line : l.live = true → s.rspValid = true → s.rspError = false →
    standing l.edges = burst l.req.reqCriticalDw s.line 4
  error : l.live = true → s.rspValid = true → s.rspError = true → s.line = 0 ∧ Failed l
  /-- Every address tenure of it has its attributes. -/
  pins : s.state ≠ .idle → (out s i).attributes = attributes l.req
  /-- Once retried it asks for the bus again. -/
  retried : l.live = true → l.retried = true →
    s.state = .retryGap ∨ s.state = .addrRequest ∨ s.state = .addrTransfer

section Runs

variable {s : State} {l : Log}

theorem open_of_inv (h : Inv s l) (hs : s.state ≠ .idle) : Open s l := by
  unfold Inv at h
  cases hstate : s.state <;> rw [hstate] at h hs <;> first | exact absurd rfl hs | exact h.1

theorem pins_of_open (h : Open s l) (i : Input) : (out s i).attributes = attributes l.req := by
  have hq := h.holds
  rw [MasterOut.attributes, out, hq.startAddr, hq.instruction, hq.gbl]
  rfl

theorem delivers_of_inv (h : Inv s l) (i : Input) : Delivers s i l where
  once hl := by
    by_cases hs : s.state = .idle
    · rw [if_pos hs]
      rw [Inv, hs, Phase.Inv, if_pos hl] at h
      exact h.once
    · have ho := open_of_inv h hs
      rw [if_neg hs, ho.taken, ho.rspValid]
      rfl
  none hl := by
    by_cases hs : s.state = .idle
    · rw [Inv, hs, Phase.Inv, hl, if_neg Bool.false_ne_true] at h
      exact h
    · exact (open_of_inv h hs).rspValid
  beats hr := by
    unfold Inv at h
    cases hs : s.state with
    | dataWait | beatConfirm | beatReplacement =>
      rw [hs] at h
      exact h.2.stored
    | _ =>
      rw [hs] at hr
      cases hr
  line hl hv he := by
    by_cases hs : s.state = .idle
    · rw [Inv, hs, Phase.Inv, if_pos hl] at h
      exact h.line hv he
    · rw [(open_of_inv h hs).rspValid] at hv
      cases hv
  error hl hv he := by
    by_cases hs : s.state = .idle
    · rw [Inv, hs, Phase.Inv, if_pos hl] at h
      exact h.error hv he
    · rw [(open_of_inv h hs).rspValid] at hv
      cases hv
  pins hs := pins_of_open (open_of_inv h hs) i
  retried hl hret := by
    have hno : l.retried ≠ false := by simp [hret]
    unfold Inv at h
    cases hs : s.state with
    | retryGap => exact Or.inl rfl
    | addrRequest => exact Or.inr (Or.inl rfl)
    | addrTransfer => exact Or.inr (Or.inr rfl)
    | idle =>
      rw [hs, Phase.Inv, if_pos hl] at h
      exact absurd h.retried hno
    | addrWait | addrRetrySample | dataRequest =>
      rw [hs] at h
      exact absurd h.2.2 hno
    | addrAbort | dataErrorRelease =>
      rw [hs] at h
      exact absurd h.2.1 hno
    | dataWait | beatConfirm | beatReplacement =>
      rw [hs] at h
      exact absurd h.2.retried hno

/-- The log of a run. -/
def log (r : Run machine) (n : ℕ) : Log := r.history .start (fun l s i => l.update s i) n

theorem inv_run (r : Run machine) (n : ℕ) : Inv (r.state n) (log r n) :=
  Run.invariant_history (A := fun _ _ => True) (I := Inv) (by rintro s ⟨s₀, rfl⟩; rfl)
    (fun _ _ _ h _ => inv_step h) fun _ _ => trivial

/-- **A line is its four standing beats.** -/
theorem delivers_run (r : Run machine) (n : ℕ) :
    Delivers (r.state n) (r.input n) (log r n) := delivers_of_inv (inv_run r n) _

end Runs

end LineRead
end Bus
end SloPPC603
