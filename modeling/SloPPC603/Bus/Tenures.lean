import SloPPC603.Bus.CacheMaster
import SloPPC603.Bus.LineRead
import SloPPC603.Bus.Scalar

/-!
# The tenures of the bus masters

What the data cache's master gives a request and a push, and the rule that the three masters
keep: a beat is delivered when the edge after its TA lets it stand.

* `Log` — the last request and the last push beside a run, and what they have been given.
* `Inv`, `PushInv` — the registers against them.
* `Delivers`, `delivers_run` — the data cache's master.
* `uncancelled_beat_lost` — TEA also takes the beat before it.
* `reads_deliver` — the three masters.
-/

namespace SloPPC603
namespace Bus
namespace CacheMaster

open Clocked

/-! ## What a request is given -/

/-- The last request accepted, the bus edges of its data tenures, and what it has been given. -/
structure Log where
  live : Bool
  req : Input
  /-- The second part of a split access is under way. -/
  part : Bool
  /-- The data tenure of the first part. -/
  first : List (Answer (BitVec 64))
  /-- The data tenure, or the last one. -/
  edges : List (Answer (BitVec 64))
  /-- The answers shown, each with its error. -/
  reads : List (Bool × BitVec 64)
  writes : List Bool
  /-- Its last address tenure was retried. -/
  retried : Bool
  /-- AACK came with TS. -/
  aborted : Bool

/-- The last push accepted, and what it has been given. -/
structure PushLog where
  live : Bool
  push : Input
  dones : List Bool
  retried : Bool

/-- Nothing accepted. -/
def Log.start : Log := ⟨false, {}, false, [], [], [], [], false, false⟩

def PushLog.start : PushLog := ⟨false, {}, [], false⟩

/-- The answers given: those shown and the one in the register. -/
def Log.given (l : Log) (s : State) : List (Bool × BitVec 64) :=
  l.reads ++ if s.rdValid then [(s.rdError, s.rdData)] else []

/-- The completions of a write given. -/
def Log.written (l : Log) (s : State) : List Bool :=
  l.writes ++ if s.wrDone then [s.wrError] else []

/-- The completions of a push given. -/
def PushLog.given (l : PushLog) (s : State) : List Bool :=
  l.dones ++ if s.pushDone then [s.pushError] else []

/-- The data tenure of a read. -/
def Phase.reads : Phase → Bool
  | .readWait | .readConfirm | .readReplace => true
  | _ => false

/-- A request is accepted. -/
def accepts (s : State) (i : Input) : Bool := i.reqValid && reqReady s i

/-- The first part of a split access ends well. -/
def continues (s : State) : Bool :=
  s.state = .finish && !s.actPush && curSingle s && s.rqPlan.split && !s.rqPart && !s.err

/-- The log of the request over a clock edge. -/
def Log.update (l : Log) (s : State) (i : Input) : Log :=
  if !i.rstN then .start
  else if !i.busCe then l
  else if accepts s i then ⟨true, i, false, [], [], [], [], false, false⟩
  else
    { l with
      part := l.part || continues s
      first := if continues s then l.edges else l.first
      edges :=
        if continues s then []
        else if s.state.reads then l.edges ++ [i.pins.answer i.d] else l.edges
      reads := l.given s
      writes := l.written s
      retried :=
        if s.actPush then l.retried
        else if s.state = .addrRetrySample then !i.pins.artryN
        else if s.state = .addrTransfer then false else l.retried
      aborted := l.aborted || (s.state = .addrTransfer && !s.actPush && !i.pins.aackN) }

/-- The log of the push over a clock edge. -/
def PushLog.update (l : PushLog) (s : State) (i : Input) : PushLog :=
  if !i.rstN then .start
  else if !i.busCe then l
  else if pushAccept s i then ⟨true, i, [], false⟩
  else
    { l with
      dones := l.given s
      retried :=
        if !s.actPush then l.retried
        else if s.state = .addrRetrySample then !i.pins.artryN
        else if s.state = .addrTransfer then false else l.retried }

/-! ## What a request asks -/

section Ask

variable (q : Input)

/-- The access in parts. -/
def burstKind : Bool := q.reqKind = kReadBurst || q.reqKind = kWriteBurst

/-- The request is a burst or single-beat read. -/
def readKind : Bool := q.reqKind = kReadBurst || q.reqKind = kReadSingle

/-- The attributes of a part of a request. -/
def attributes (part : Bool) : Attributes :=
  let single := !burstKind q && q.reqKind ≠ kAddrOnly
  let plan := planSingle q.reqBe
  { a :=
      if q.reqKind = kReadBurst then q.reqAddr &&& ~~~7
      else if single then (q.reqAddr &&& ~~~7) ||| (if part then 4 else plan.off0).setWidth 32
      else q.reqAddr &&& ~~~31
    tt := q.reqTt
    tbstN := !burstKind q
    tsiz :=
      if burstKind q then tsizBurst
      else if single then (if part then plan.siz1 else plan.siz0) else 0
    tc := 0
    ciN := !q.reqWimg.getLsbD 2
    wtN := !q.reqWimg.getLsbD 3
    gblN := !q.reqGbl
    cse := q.reqCse }

/-- The attributes of a push. -/
def pushAttributes : Attributes :=
  ⟨q.pushAddr &&& ~~~31, ttWriteKill, false, tsizBurst, 0, true, true, true, 0⟩

/-- The data of a beat of a write. -/
def writeData (beat : BitVec 2) : BitVec 64 :=
  if q.reqKind = kWriteBurst then lineBeat q.reqData beat else q.reqData.setWidth 64

end Ask

/-- The beats of a data tenure of a request. -/
def beats (q : Input) : ℕ := if burstKind q then 4 else 1

/-- Answers without an error. -/
def well (ws : List (BitVec 64)) : List (Bool × BitVec 64) := ws.map fun w => (false, w)

/-- What a single-beat read returns: the beat that stands, or a word of each part's. -/
def Single (l : Log) (v : BitVec 64) : Prop :=
  if (planSingle l.req.reqBe).split then
    ∃ w₀ w₁, standing l.first = [w₀] ∧ standing l.edges = [w₁] ∧
      v = w₀.extractLsb' 32 32 ++ w₁.extractLsb' 0 32
  else standing l.edges = [v]

/-- A request that cannot be made. -/
def bad (q : Input) : Bool :=
  kAddrOnly < q.reqKind ||
    ((q.reqKind = kReadSingle || q.reqKind = kWriteSingle) && !(planSingle q.reqBe).ok)

/-- Why a read failed. -/
def Failed (l : Log) : Prop :=
  bad l.req = true ∨ l.aborted = true ∨ (Reader.run (beats l.req) l.edges).phase = .failed

/-- A request has had its one completion. -/
structure Complete (l : Log) (s : State) : Prop where
  burst : l.req.reqKind = kReadBurst → l.written s = [] ∧
    ((l.given s = well (standing l.edges) ∧ (standing l.edges).length = 4) ∨
      (l.given s = well (standing l.edges) ++ [(true, 0)] ∧ (standing l.edges).length < 4 ∧
        Failed l))
  single : l.req.reqKind = kReadSingle → l.written s = [] ∧
    ((∃ v, l.given s = [(false, v)] ∧ Single l v) ∨ (l.given s = [(true, 0)] ∧ Failed l))
  other : readKind l.req = false → l.given s = [] ∧ ∃ e, l.written s = [e]

section Inv

/-- The attributes of the tenure in progress. -/
def curAttributes (s : State) : Attributes :=
  ⟨s.curA, s.curTt, s.curTbstN, s.curTsiz, 0, s.curCiN, s.curWtN, s.curGblN, s.curCse⟩

/-- The slot holds a request. -/
structure Holds (s : State) (q : Input) : Prop where
  kind : s.rqKind = q.reqKind
  tt : s.rqTt = q.reqTt
  addr : s.rqAddr = q.reqAddr
  wimg : s.rqWimg = q.reqWimg
  gbl : s.rqGbl = q.reqGbl
  cse : s.rqCse = q.reqCse
  data : s.rqData = q.reqData
  plan : s.rqPlan = planSingle q.reqBe

/-- A request that has not ended. -/
structure Open (s : State) (l : Log) : Prop where
  valid : s.rqValid = true
  live : l.live = true
  holds : Holds s l.req
  part : s.rqPart = l.part
  written : l.written s = []
  first : l.part = true → (planSingle l.req.reqBe).split = true ∧
    (l.req.reqKind = kReadSingle → standing l.first = [s.rqMerge])

/-- A request whose data tenure has not begun. -/
structure Waiting (s : State) (l : Log) : Prop extends Open s l where
  edges : l.edges = []
  given : l.given s = []
  untried : bad l.req = true → l.retried = false

/-- A slot with no tenure in progress. -/
def Resting (s : State) (l : Log) : Prop :=
  if s.rqValid then Waiting s l
  else if l.live then Complete l s ∧ l.retried = false
  else s.rdValid = false ∧ s.wrDone = false

/-- The pins of a part of a request. -/
structure Loaded (s : State) (l : Log) : Prop where
  good : bad l.req = false
  pins : curAttributes s = attributes l.req l.part
  last : s.lastBeat.toNat + 1 = beats l.req

theorem Loaded.untried {s : State} {l : Log} (h : Loaded s l) (P : Prop)
    (hbad : bad l.req = true) : P := by
  rw [h.good] at hbad
  cases hbad

/-- An address tenure of a request. -/
structure Asking (s : State) (l : Log) : Prop extends Waiting s l, Loaded s l where
  beat : s.beat = 0
  err : s.err = false

/-- A data tenure whose reader is in a phase. -/
structure Reading (phase : Reader.Phase (BitVec 64)) (s : State) (l : Log) : Prop
    extends Open s l, Loaded s l where
  err : s.err = false
  read : readKind l.req = true
  retried : l.retried = false
  follows : Reader.Follows (beats l.req) l.edges
  phase : (Reader.run (beats l.req) l.edges).phase = phase
  beat : s.beat.toNat = (standing l.edges).length
  given : l.given s = if l.req.reqKind = kReadBurst then well (standing l.edges) else []

/-- A part of a request that ends. -/
structure Ending (s : State) (l : Log) : Prop extends Open s l where
  retried : l.retried = false
  given : l.given s = if l.req.reqKind = kReadBurst then well (standing l.edges) else []
  failed : s.err = true → readKind l.req = true →
    Failed l ∧ (l.req.reqKind = kReadBurst → (standing l.edges).length < 4)
  burst : s.err = false → l.req.reqKind = kReadBurst → (standing l.edges).length = 4
  single : s.err = false → l.req.reqKind = kReadSingle →
    if (planSingle l.req.reqBe).split then
      if l.part then ∃ w, standing l.edges = [w] ∧
        s.fin = s.rqMerge.extractLsb' 32 32 ++ w.extractLsb' 0 32
      else standing l.edges = [s.rqMerge]
    else standing l.edges = [s.fin]

/-- A tenure of a request, in a state. -/
def Phase.Active (s : State) (l : Log) : Phase → Prop
  | .idle => False
  | .addrRequest | .retryGap | .addrTransfer => Asking s l
  | .addrWait | .addrRetrySample => Asking s l ∧ l.retried = false
  | .dataRequest => Asking s l ∧ l.retried = false ∧ l.req.reqKind ≠ kAddrOnly
  | .addrAbort => Asking s l ∧ l.retried = false ∧ l.aborted = true
  | .writeBeat => Waiting s l ∧ Loaded s l ∧ l.retried = false ∧ readKind l.req = false
  | .readWait => Reading .waiting s l
  | .readConfirm => Reading (.held s.provisional) s l
  | .readReplace => Reading .replacing s l
  | .dataRelease => Ending s l ∧ Loaded s l
  | .finish => Ending s l

/-- The registers against the log of the request. -/
def Inv (s : State) (l : Log) : Prop :=
  if s.state = .idle then Resting s l
  else if s.actPush then Resting s l ∧ s.state.reads = false
  else s.state.Active s l

/-- The push slot against the log of the push. -/
structure PushSlot (s : State) (l : PushLog) : Prop where
  held : s.puValid = true → l.live = true ∧ s.puAddr = l.push.pushAddr ∧
    s.puData = l.push.pushData ∧ l.given s = []
  free : s.puValid = false →
    l.retried = false ∧ if l.live then ∃ e, l.given s = [e] else s.pushDone = false

/-- A tenure of a push. -/
def Pushing (s : State) (l : PushLog) : Prop :=
  s.puValid = true ∧ curAttributes s = pushAttributes l.push ∧
    (l.retried = true → s.state = .retryGap ∨ s.state = .addrRequest ∨ s.state = .addrTransfer)

/-- The registers against the log of the push. -/
structure PushInv (s : State) (l : PushLog) : Prop extends PushSlot s l where
  tenure : s.state ≠ .idle → if s.actPush then Pushing s l else l.retried = false

/-! ## What an edge keeps -/

section Frame

variable {s : State} {i : Input} {l : Log}

theorem accepts_spec (h : accepts s i = true) :
    s.state = .idle ∧ s.rqValid = false ∧ s.puValid = false := by
  simp only [accepts, reqReady, Bool.and_eq_true, decide_eq_true_eq, Bool.not_eq_true'] at h
  tauto

theorem not_accepts (hs : s.state ≠ .idle) : accepts s i = false := by
  by_contra ha
  exact hs (accepts_spec (by simpa using ha)).1

/-- A bus edge, but for what is not about a tenure. -/
theorem step_bus (hr : i.rstN = true) (hb : i.busCe = true) : step s i =
    { edge s i with
      provisional := if !i.pins.taN then i.d else s.provisional
      slow := s.slow, idle := s.state = .idle && !s.rqValid && !s.puValid } := by
  simp [step, hr, hb]

@[simp] theorem taken_state (s : State) (i : Input) : (taken s i).state = s.state := by
  unfold taken
  split_ifs <;> rfl

@[simp] theorem taken_beat (s : State) (i : Input) : (taken s i).beat = s.beat := by
  unfold taken
  split_ifs <;> rfl

@[simp] theorem taken_err (s : State) (i : Input) : (taken s i).err = s.err := by
  unfold taken
  split_ifs <;> rfl

@[simp] theorem taken_rdValid (s : State) (i : Input) : (taken s i).rdValid = false := by
  unfold taken
  split_ifs <;> rfl

@[simp] theorem taken_rdError (s : State) (i : Input) : (taken s i).rdError = false := by
  unfold taken
  split_ifs <;> rfl

@[simp] theorem taken_rqMerge (s : State) (i : Input) : (taken s i).rqMerge = s.rqMerge := by
  unfold taken
  split_ifs <;> rfl

@[simp] theorem taken_fin (s : State) (i : Input) : (taken s i).fin = s.fin := by
  unfold taken
  split_ifs <;> rfl

/-- A state without what a tenure changes from edge to edge, and without its push. -/
def erase (s : State) : State :=
  { s with
    state := .idle, beat := 0, err := false, addrReleasePending := false
    dataReleasePending := false, finalReleaseStarted := false, releaseOeCycle := false
    protocolError := false, reqAcked := false, puValid := false, pushDone := false
    pushError := false, provisional := 0, slow := false, idle := false }

/-- A tenure leaves the request slot as it was. -/
theorem erase_step (hr : i.rstN = true) (hb : i.busCe = true) (hs : s.state ≠ .idle)
    (hf : s.state = .finish → s.actPush = true)
    (hc : s.state = .readConfirm → i.pins.teaN = false ∨ i.pins.drtryN = false) :
    erase (step s i) = erase (taken s i) := by
  have hedge : erase (step s i) = erase (edge s i) := by
    rw [step_bus hr hb]
    rfl
  rw [hedge]
  unfold edge
  generalize taken s i = b
  cases hstate : s.state with
  | idle => exact absurd hstate hs
  | finish =>
    dsimp only
    rw [finish, hf hstate]
    rfl
  | readConfirm =>
    dsimp only
    rcases hc hstate with hc | hc
    · rw [hc]
      cases s.finalReleaseStarted <;> rfl
    · rw [hc]
      cases i.pins.teaN <;> cases s.finalReleaseStarted <;> rfl
  | _ =>
    dsimp only
    (try split_ifs) <;> rfl

/-- What an edge with no new request and no answer keeps. -/
structure Slots (s s' : State) : Prop where
  valid : s'.rqValid = s.rqValid
  kind : s'.rqKind = s.rqKind
  tt : s'.rqTt = s.rqTt
  addr : s'.rqAddr = s.rqAddr
  wimg : s'.rqWimg = s.rqWimg
  gbl : s'.rqGbl = s.rqGbl
  cse : s'.rqCse = s.rqCse
  data : s'.rqData = s.rqData
  plan : s'.rqPlan = s.rqPlan
  part : s'.rqPart = s.rqPart
  merge : s'.rqMerge = s.rqMerge
  fin : s'.fin = s.fin
  rdValid : s'.rdValid = false
  wrDone : s'.wrDone = false

/-- The same with no new tenure. -/
structure Kept (s s' : State) : Prop extends Slots s s' where
  actPush : s'.actPush = s.actPush
  pins : curAttributes s' = curAttributes s
  last : s'.lastBeat = s.lastBeat

theorem kept_taken (ha : accepts s i = false) : Kept s (taken s i) := by
  have ha' : (i.reqValid && reqReady s i) = false := ha
  simp only [taken, ha', Bool.false_eq_true, if_false]
  split_ifs <;> exact ⟨⟨rfl, rfl, rfl, rfl, rfl, rfl, rfl, rfl, rfl, rfl, rfl, rfl, rfl, rfl⟩,
    rfl, rfl, rfl⟩

theorem kept_of_erase {s' : State} (ha : accepts s i = false) (h : erase s' = erase (taken s i)) :
    Kept s s' := by
  have hf : ∀ {α : Type} (f : State → α), f (erase s') = f (erase (taken s i)) := fun f =>
    congrArg f h
  have ht := kept_taken ha
  exact ⟨⟨(hf State.rqValid).trans ht.valid, (hf State.rqKind).trans ht.kind,
    (hf State.rqTt).trans ht.tt, (hf State.rqAddr).trans ht.addr,
    (hf State.rqWimg).trans ht.wimg, (hf State.rqGbl).trans ht.gbl,
    (hf State.rqCse).trans ht.cse, (hf State.rqData).trans ht.data,
    (hf State.rqPlan).trans ht.plan, (hf State.rqPart).trans ht.part,
    (hf State.rqMerge).trans ht.merge, (hf State.fin).trans ht.fin,
    (hf State.rdValid).trans ht.rdValid, (hf State.wrDone).trans ht.wrDone⟩,
    (hf State.actPush).trans ht.actPush, (hf curAttributes).trans ht.pins,
    (hf State.lastBeat).trans ht.last⟩

theorem kept_step (hr : i.rstN = true) (hb : i.busCe = true) (hs : s.state ≠ .idle)
    (hf : s.state = .finish → s.actPush = true)
    (hc : s.state = .readConfirm → i.pins.teaN = false ∨ i.pins.drtryN = false) :
    Kept s (step s i) :=
  kept_of_erase (not_accepts hs) (erase_step hr hb hs hf hc)

/-- The log over a bus edge with no request accepted. -/
theorem update_bus (hr : i.rstN = true) (hb : i.busCe = true) (ha : accepts s i = false) :
    l.update s i =
      { l with
        part := l.part || continues s
        first := if continues s then l.edges else l.first
        edges :=
          if continues s then []
          else if s.state.reads then l.edges ++ [i.pins.answer i.d] else l.edges
        reads := l.given s
        writes := l.written s
        retried :=
          if s.actPush then l.retried
          else if s.state = .addrRetrySample then !i.pins.artryN
          else if s.state = .addrTransfer then false else l.retried
        aborted := l.aborted || (s.state = .addrTransfer && !s.actPush && !i.pins.aackN) } := by
  simp [Log.update, hr, hb, ha]

theorem Holds.kept {s' : State} {q : Input} (h : Holds s q) (hk : Slots s s') : Holds s' q :=
  ⟨hk.kind.trans h.kind, hk.tt.trans h.tt, hk.addr.trans h.addr, hk.wimg.trans h.wimg,
    hk.gbl.trans h.gbl, hk.cse.trans h.cse, hk.data.trans h.data, hk.plan.trans h.plan⟩

/-- A log that says the same of its request. -/
structure Same (l l' : Log) : Prop where
  live : l'.live = l.live
  req : l'.req = l.req
  part : l'.part = l.part
  first : l'.first = l.first

/-- An edge that gives nothing. -/
theorem quiet_step (hr : i.rstN = true) (hb : i.busCe = true) (ha : accepts s i = false)
    (hk : Slots s (step s i)) (hc : continues s = false) : Same l (l.update s i) ∧
      (l.update s i).given (step s i) = l.given s ∧
        (l.update s i).written (step s i) = l.written s := by
  rw [update_bus hr hb ha, hc]
  refine ⟨⟨rfl, rfl, Bool.or_false _, rfl⟩, ?_, ?_⟩
  · rw [Log.given, hk.rdValid]
    exact List.append_nil _
  · rw [Log.written, hk.wrDone]
    exact List.append_nil _

section Quiet

variable (hr : i.rstN = true) (hb : i.busCe = true) (ha : accepts s i = false)
  (hk : Slots s (step s i)) (hc : continues s = false)
include hr hb ha hk hc

theorem Open.quiet (h : Open s l) : Open (step s i) (l.update s i) := by
  obtain ⟨hl, -, hw⟩ := quiet_step (l := l) hr hb ha hk hc
  refine ⟨hk.valid.trans h.valid, hl.live.trans h.live, ?_, ?_, hw.trans h.written, ?_⟩
  · rw [hl.req]
    exact h.holds.kept hk
  · rw [hk.part, hl.part, h.part]
  · rw [hl.part, hl.req, hl.first, hk.merge]
    exact h.first

omit hk in
theorem edges_quiet (hreads : s.state.reads = false) : (l.update s i).edges = l.edges := by
  rw [update_bus hr hb ha, hc, hreads]
  rfl

theorem Waiting.quiet (h : Waiting s l) (hreads : s.state.reads = false)
    (hbad : bad l.req = true → (l.update s i).retried = false) :
    Waiting (step s i) (l.update s i) :=
  ⟨h.toOpen.quiet hr hb ha hk hc, (edges_quiet hr hb ha hc hreads).trans h.edges,
    (quiet_step hr hb ha hk hc).2.1.trans h.given, by
      rw [(quiet_step (l := l) hr hb ha hk hc).1.req]
      exact hbad⟩

/-- **A slot with no tenure in progress stays as it is.** -/
theorem resting_quiet (h : Resting s l) (hreads : s.state.reads = false)
    (hrest : (l.update s i).retried = l.retried ∧ (l.update s i).aborted = l.aborted) :
    Resting (step s i) (l.update s i) := by
  obtain ⟨hl, hg, hw⟩ := quiet_step (l := l) hr hb ha hk hc
  have hedges := edges_quiet (l := l) hr hb ha hc hreads
  unfold Resting at h ⊢
  rw [hk.valid, hl.live]
  split_ifs at h ⊢ with hv hlive
  · exact h.quiet hr hb ha hk hc hreads fun hbad => hrest.1.trans (h.untried hbad)
  · obtain ⟨hcomplete, hret⟩ := h
    refine ⟨?_, hrest.1.trans hret⟩
    have hfailed : Failed (l.update s i) ↔ Failed l := by
      rw [Failed, Failed, hl.req, hrest.2, hedges]
    have hsingle : ∀ v, Single (l.update s i) v ↔ Single l v := by
      intro v
      rw [Single, Single, hl.req, hl.first, hedges]
    refine ⟨?_, ?_, ?_⟩ <;> rw [hg, hw, hl.req]
    · rw [hedges, hfailed]
      exact hcomplete.burst
    · simp only [hsingle, hfailed]
      exact hcomplete.single
    · exact hcomplete.other
  · exact ⟨hk.rdValid, hk.wrDone⟩

end Quiet

theorem Loaded.quiet (hr : i.rstN = true) (hb : i.busCe = true) (ha : accepts s i = false)
    (hk : Kept s (step s i)) (hc : continues s = false) (h : Loaded s l) :
    Loaded (step s i) (l.update s i) := by
  obtain ⟨hl, -, -⟩ := quiet_step (l := l) hr hb ha hk.toSlots hc
  refine ⟨?_, ?_, ?_⟩
  · rw [hl.req]
    exact h.good
  · rw [hk.pins, hl.req, hl.part]
    exact h.pins
  · rw [hk.last, hl.req]
    exact h.last

end Frame

/-! ## A tenure of a request -/

section Tenure

variable {s : State} {i : Input} {l : Log}

/-- The kinds there are. -/
theorem kind_cases : ∀ k : BitVec 3, ¬ kAddrOnly < k → k = kReadBurst ∨ k = kReadSingle ∨
    k = kWriteBurst ∨ k = kWriteSingle ∨ k = kAddrOnly := by decide

variable (hr : i.rstN = true) (hb : i.busCe = true) (hs : s.state ≠ .idle)
  (hp : s.actPush = false)
include hr hb

theorem inv_active {x : Phase} (hx : (edge s i).state = x) (hgoes : x ≠ .idle)
    (hact : (step s i).actPush = false) (h : x.Active (step s i) (l.update s i)) :
    Inv (step s i) (l.update s i) := by
  have hst : (step s i).state = x := by rw [step_bus hr hb, hx]
  rw [Inv, hst, if_neg hgoes, hact, if_neg Bool.false_ne_true]
  exact h

theorem inv_resting (hx : (edge s i).state = .idle) (h : Resting (step s i) (l.update s i)) :
    Inv (step s i) (l.update s i) := by
  have hst : (step s i).state = .idle := by rw [step_bus hr hb, hx]
  rw [Inv, hst, if_pos rfl]
  exact h

include hs hp

/-- What the log of a tenure says of its address tenure. -/
theorem tenure_update : (l.update s i).retried =
      (if s.state = .addrRetrySample then !i.pins.artryN
        else if s.state = .addrTransfer then false else l.retried) ∧
    (l.update s i).aborted = (l.aborted || (s.state = .addrTransfer && !i.pins.aackN)) := by
  rw [update_bus hr hb (not_accepts hs), hp]
  simp

/-- **An address tenure of a request.** -/
theorem inv_address (hask : Asking s l)
    (ha : s.state = .addrRequest ∨ s.state = .retryGap ∨ s.state = .addrTransfer ∨
      ((s.state = .addrWait ∨ s.state = .addrRetrySample) ∧ l.retried = false) ∨
      (s.state = .dataRequest ∧ l.retried = false ∧ l.req.reqKind ≠ kAddrOnly)) :
    Inv (step s i) (l.update s i) := by
  have hstates : s.state = .addrRequest ∨ s.state = .retryGap ∨ s.state = .addrTransfer ∨
      s.state = .addrWait ∨ s.state = .addrRetrySample ∨ s.state = .dataRequest := by tauto
  have hreads : s.state.reads = false := by
    rcases hstates with ha | ha | ha | ha | ha | ha <;> rw [ha] <;> rfl
  have hc : continues s = false := by
    rcases hstates with ha | ha | ha | ha | ha | ha <;> simp [continues, ha]
  have hk : Kept s (step s i) := kept_step hr hb hs
    (fun hf => by rw [hf] at hstates; simp at hstates)
    (fun hf => by rw [hf] at hstates; simp at hstates)
  have hact : (step s i).actPush = false := hk.actPush.trans hp
  have hkeeps : (step s i).beat = s.beat ∧ (step s i).err = s.err := by
    rw [step_bus hr hb]
    unfold edge
    rcases hstates with ha | ha | ha | ha | ha | ha <;> rw [ha] <;> dsimp only <;>
      (try split_ifs) <;> exact ⟨taken_beat s i, taken_err s i⟩
  have hstill : Asking (step s i) (l.update s i) :=
    ⟨hask.toWaiting.quiet hr hb (not_accepts hs) hk.toSlots hc hreads (hask.toLoaded.untried _), hask.toLoaded.quiet hr hb (not_accepts hs) hk hc,
      hkeeps.1.trans hask.beat, hkeeps.2.trans hask.err⟩
  obtain ⟨hret', habort'⟩ := tenure_update (l := l) hr hb hs hp
  have hkind' : (l.update s i).req = l.req := (quiet_step hr hb (not_accepts hs) hk.toSlots hc).1.req
  have hgo {x : Phase} (hx : (edge s i).state = x) (hgoes : x ≠ .idle)
      (h : x.Active (step s i) (l.update s i)) := inv_active hr hb hx hgoes hact h
  rcases ha with ha | ha | ha | ⟨ha | ha, hret⟩ | ⟨ha, hret, hkind⟩
  · by_cases hg : i.pins.granted = true
    · exact hgo (x := .addrTransfer) (by simp [edge, ha, hg]) (by decide) hstill
    · exact hgo (x := .addrRequest) (by simp [edge, ha, hg]) (by decide) hstill
  · refine inv_resting hr hb (by simp [edge, ha]) ?_
    rw [Resting, hstill.valid, if_pos rfl]
    exact hstill.toWaiting
  · have hretried : (l.update s i).retried = false := by rw [hret']; simp [ha]
    by_cases hg : i.pins.aackN = true
    · exact hgo (x := .addrWait) (by simp [edge, ha, hg]) (by decide) ⟨hstill, hretried⟩
    · have haborted : (l.update s i).aborted = true := by rw [habort']; simp [ha, hg]
      exact hgo (x := .addrAbort) (by simp [edge, ha, hg]) (by decide)
        ⟨hstill, hretried, haborted⟩
  · have hretried : (l.update s i).retried = false := by rw [hret']; simp [ha, hret]
    by_cases hg : i.pins.aackN = true
    · exact hgo (x := .addrWait) (by simp [edge, ha, hg]) (by decide) ⟨hstill, hretried⟩
    · exact hgo (x := .addrRetrySample) (by simp [edge, ha, hg]) (by decide) ⟨hstill, hretried⟩
  · by_cases hg : i.pins.artryN = true
    · have hretried : (l.update s i).retried = false := by rw [hret']; simp [ha, hg]
      have hkind : s.rqKind = l.req.reqKind := hask.holds.kind
      by_cases ho : s.rqKind = kAddrOnly
      · have honly : (l.update s i).req.reqKind = kAddrOnly := by rw [hkind', ← hkind, ho]
        refine hgo (x := .finish) (by simp [edge, ha, hg, curAddrOnly, hp, ho]) (by decide)
          ⟨hstill.toOpen, hretried, ?_, ?_, ?_, ?_⟩
        · rw [honly, if_neg (by decide)]
          exact hstill.given
        · intro herr
          rw [hstill.err] at herr
          cases herr
        · intro _ hno
          rw [honly] at hno
          cases hno
        · intro _ hno
          rw [honly] at hno
          cases hno
      · refine hgo (x := .dataRequest) (by simp [edge, ha, hg, curAddrOnly, hp, ho]) (by decide)
          ⟨hstill, hretried, ?_⟩
        rw [hkind', ← hkind]
        exact ho
    · exact hgo (x := .retryGap) (by simp [edge, ha, hg]) (by decide) hstill
  · have hretried : (l.update s i).retried = false := by rw [hret']; simp [ha, hret]
    by_cases hg : i.pins.dataGranted = true
    · cases hw : curWrite s with
      | true =>
        refine hgo (x := .writeBeat) (by simp [edge, ha, hg, hw]) (by decide)
          ⟨hstill.toWaiting, hstill.toLoaded, hretried, ?_⟩
        rw [readKind, hkind', ← hask.holds.kind]
        rw [curWrite, hp] at hw
        simp only [Bool.false_or, Bool.or_eq_true, decide_eq_true_eq] at hw
        rcases hw with hw | hw <;> rw [hw] <;> decide
      | false =>
        have hread : readKind (l.update s i).req = true := by
          rw [readKind, hkind']
          have hgood := hask.good
          rw [bad, Bool.or_eq_false_iff, decide_eq_false_iff_not] at hgood
          rw [curWrite, hp, hask.holds.kind] at hw
          simp only [Bool.false_or, Bool.or_eq_false_iff, decide_eq_false_iff_not] at hw
          rcases kind_cases _ hgood.1 with hk | hk | hk | hk | hk
          · rw [hk]; rfl
          · rw [hk]; rfl
          · exact absurd hk hw.1
          · exact absurd hk hw.2
          · exact absurd hk hkind
        refine hgo (x := .readWait) (by simp [edge, ha, hg, hw]) (by decide)
          ⟨hstill.toOpen, hstill.toLoaded, hstill.err, hread, hretried, ?_, ?_, ?_, ?_⟩ <;>
          rw [hstill.edges]
        · refine Reader.follows_nil ?_
          rw [beats]
          split_ifs <;> decide
        · rfl
        · rw [hstill.beat]
          rfl
        · rw [hstill.given]
          split_ifs <;> rfl
    · exact hgo (x := .dataRequest) (by simp [edge, ha, hg]) (by decide)
        ⟨hstill, hretried, by rw [hkind']; exact hkind⟩

omit hr hb hs hp in
/-- A part that ends with nothing given, of no read or with an error. -/
theorem ending_of_waiting {s' : State} {l' : Log} (h : Waiting s' l') (hret : l'.retried = false)
    (hcause : readKind l'.req = false ∨ (s'.err = true ∧ Failed l')) : Ending s' l' := by
  have hno : ∀ k, k = kReadBurst ∨ k = kReadSingle → l'.req.reqKind = k →
      readKind l'.req = true := by
    rintro k (rfl | rfl) hk <;> rw [readKind, hk] <;> rfl
  refine ⟨h.toOpen, hret, ?_, ?_, ?_, ?_⟩
  · rw [h.given, h.edges]
    split_ifs <;> rfl
  · intro _ hread
    rcases hcause with hc | ⟨-, hc⟩
    · rw [hread] at hc
      cases hc
    · refine ⟨hc, fun _ => ?_⟩
      rw [h.edges]
      decide
  · intro herr hk
    rcases hcause with hc | ⟨hc, -⟩
    · rw [hno _ (Or.inl rfl) hk] at hc
      cases hc
    · rw [herr] at hc
      cases hc
  · intro herr hk
    rcases hcause with hc | ⟨hc, -⟩
    · rw [hno _ (Or.inr rfl) hk] at hc
      cases hc
    · rw [herr] at hc
      cases hc

/-- An aborted address tenure. -/
theorem inv_abort (hask : Asking s l) (hret : l.retried = false) (habort : l.aborted = true)
    (ha : s.state = .addrAbort) : Inv (step s i) (l.update s i) := by
  have hc : continues s = false := by simp [continues, ha]
  have hk : Kept s (step s i) := kept_step hr hb hs (fun hf => by rw [ha] at hf; exact nomatch hf)
    (fun hf => by rw [ha] at hf; exact nomatch hf)
  obtain ⟨hret', habort'⟩ := tenure_update (l := l) hr hb hs hp
  have herr : (step s i).err = true := by
    rw [step_bus hr hb]
    simp [edge, ha]
  refine inv_active hr hb (x := .finish) (by simp [edge, ha]) (by decide) (hk.actPush.trans hp) ?_
  refine ending_of_waiting (hask.toWaiting.quiet hr hb (not_accepts hs) hk.toSlots hc (by rw [ha]; rfl)
    (hask.toLoaded.untried _)) ?_
    (Or.inr ⟨herr, Or.inr (Or.inl ?_)⟩)
  · rw [hret']
    simp [ha, hret]
  · rw [habort']
    simp [habort]

/-- The data tenure of a write. -/
theorem inv_write (hw : Waiting s l) (hl : Loaded s l) (hret : l.retried = false)
    (hkind : readKind l.req = false) (ha : s.state = .writeBeat) :
    Inv (step s i) (l.update s i) := by
  have hc : continues s = false := by simp [continues, ha]
  have hk : Kept s (step s i) := kept_step hr hb hs (fun hf => by rw [ha] at hf; exact nomatch hf)
    (fun hf => by rw [ha] at hf; exact nomatch hf)
  obtain ⟨hret', -⟩ := tenure_update (l := l) hr hb hs hp
  have hretried : (l.update s i).retried = false := by rw [hret']; simp [ha, hret]
  have hreq : readKind (l.update s i).req = false := by
    rw [(quiet_step (l := l) hr hb (not_accepts hs) hk.toSlots hc).1.req]
    exact hkind
  have hwaits := hw.quiet hr hb (not_accepts hs) hk.toSlots hc (by rw [ha]; rfl) (hl.untried _)
  have hloaded := hl.quiet hr hb (not_accepts hs) hk hc
  have hact : (step s i).actPush = false := hk.actPush.trans hp
  have hends : (edge s i).state = .dataRelease → Inv (step s i) (l.update s i) := fun hx =>
    inv_active hr hb hx (by decide) hact
      ⟨ending_of_waiting hwaits hretried (Or.inl hreq), hloaded⟩
  have hstays : (edge s i).state = .writeBeat → Inv (step s i) (l.update s i) := fun hx =>
    inv_active hr hb hx (by decide) hact ⟨hwaits, hloaded, hretried, hreq⟩
  cases htea : i.pins.teaN with
  | false => exact hends (by simp [edge, ha, htea])
  | true =>
    cases hta : i.pins.taN with
    | true => exact hstays (by simp [edge, ha, htea, hta])
    | false =>
      by_cases hlast : s.beat = s.lastBeat
      · exact hends (by simp [edge, ha, htea, hta, hlast])
      · exact hstays (by simp [edge, ha, htea, hta, hlast])

omit hr hb hs hp in
theorem beats_of_kind {q : Input} (hread : readKind q = true) :
    (q.reqKind = kReadBurst ∧ beats q = 4) ∨ (q.reqKind = kReadSingle ∧ beats q = 1) := by
  rw [readKind, Bool.or_eq_true, decide_eq_true_eq, decide_eq_true_eq] at hread
  rcases hread with hk | hk
  · exact Or.inl ⟨hk, by simp [beats, burstKind, hk]⟩
  · refine Or.inr ⟨hk, ?_⟩
    rw [beats, burstKind, hk]
    rfl

/-- A data tenure that an error ends. -/
theorem inv_failed {phase : Reader.Phase (BitVec 64)} (h : Reading phase s l)
    (hk : Kept s (step s i)) (hreads : s.state.reads = true)
    (hedges : (l.update s i).edges = l.edges ++ [i.pins.answer i.d])
    (hlive : phase.live = true)
    (hfailed : (Reader.run (beats l.req) (l.update s i).edges).phase = .failed)
    (herr : (step s i).err = true)
    (hx : (edge s i).state = .dataRelease ∨ (edge s i).state = .finish) :
    Inv (step s i) (l.update s i) := by
  have hc : continues s = false := by
    cases hst : s.state <;> rw [hst] at hreads <;> first | exact absurd hreads (by decide) | simp [continues, hst]
  obtain ⟨hsame, hgiven, hwritten⟩ := quiet_step (l := l) hr hb (not_accepts hs) hk.toSlots hc
  have hret : (l.update s i).retried = false := by
    rw [(tenure_update (l := l) hr hb hs hp).1]
    cases hst : s.state <;> rw [hst] at hreads <;>
      first | exact absurd hreads (by decide) | simp [h.retried]
  have hfollows : Reader.Follows (beats l.req) (l.update s i).edges := by
    rw [hedges]
    exact h.follows.concat (by rwa [h.phase]) _
  -- the edge that fails keeps no word
  have hstanding : standing (l.update s i).edges = standing l.edges := by
    rw [← hfollows.kept, hedges, Reader.kept_of_failed (by rwa [h.phase]) (by rwa [← hedges]),
      h.follows.kept]
  have hending : Ending (step s i) (l.update s i) := by
    refine ⟨h.toOpen.quiet hr hb (not_accepts hs) hk.toSlots hc, hret, ?_, ?_, ?_, ?_⟩
    · rw [hgiven, hsame.req, hstanding]
      exact h.given
    · intro _ _
      refine ⟨Or.inr (Or.inr ?_), fun hkind => ?_⟩
      · rw [hsame.req]
        exact hfailed
      · rw [hsame.req] at hkind
        have hshort := hfollows.short hfailed
        rw [hfollows.kept] at hshort
        rcases beats_of_kind h.read with ⟨-, h4⟩ | ⟨hno, -⟩
        · rwa [h4] at hshort
        · rw [hno] at hkind
          cases hkind
    · intro hno
      rw [herr] at hno
      cases hno
    · intro hno
      rw [herr] at hno
      cases hno
  have hact : (step s i).actPush = false := hk.actPush.trans hp
  rcases hx with hx | hx
  · exact inv_active hr hb hx (by decide) hact
      ⟨hending, h.toLoaded.quiet hr hb (not_accepts hs) hk hc⟩
  · exact inv_active hr hb hx (by decide) hact hending

/-- A data tenure that goes on and keeps no word. -/
theorem inv_unjudged {phase x : Reader.Phase (BitVec 64)} {y : Phase} (h : Reading phase s l)
    (hk : Kept s (step s i)) (hreads : s.state.reads = true) (hlive : phase.live = true)
    (hx : (Reader.run (beats l.req) (l.edges ++ [i.pins.answer i.d])).phase = x)
    (hkept : (Reader.run (beats l.req) (l.edges ++ [i.pins.answer i.d])).kept =
      (Reader.run (beats l.req) l.edges).kept)
    (hbeat : (step s i).beat = s.beat) (herr : (step s i).err = s.err)
    (hy : (edge s i).state = y) (hgoes : y ≠ .idle)
    (hactive : Reading x (step s i) (l.update s i) → y.Active (step s i) (l.update s i)) :
    Inv (step s i) (l.update s i) := by
  have hc : continues s = false := by
    cases hst : s.state <;> rw [hst] at hreads <;>
      first | exact absurd hreads (by decide) | simp [continues, hst]
  obtain ⟨hsame, hgiven, hwritten⟩ := quiet_step (l := l) hr hb (not_accepts hs) hk.toSlots hc
  have hedges : (l.update s i).edges = l.edges ++ [i.pins.answer i.d] := by
    rw [update_bus hr hb (not_accepts hs), hc, hreads]
    rfl
  have hret : (l.update s i).retried = false := by
    rw [(tenure_update (l := l) hr hb hs hp).1]
    cases hst : s.state <;> rw [hst] at hreads <;>
      first | exact absurd hreads (by decide) | simp [h.retried]
  have hfollows : Reader.Follows (beats l.req) (l.update s i).edges := by
    rw [hedges]
    exact h.follows.concat (by rwa [h.phase]) _
  have hstanding : standing (l.update s i).edges = standing l.edges := by
    rw [← hfollows.kept, hedges, hkept, h.follows.kept]
  refine inv_active hr hb hy hgoes (hk.actPush.trans hp) (hactive ⟨h.toOpen.quiet hr hb (not_accepts hs) hk.toSlots hc,
    h.toLoaded.quiet hr hb (not_accepts hs) hk hc, herr.trans h.err, ?_, hret, ?_, ?_, ?_, ?_⟩)
  · rw [hsame.req]
    exact h.read
  · rw [hsame.req]
    exact hfollows
  · rw [hsame.req, hedges]
    exact hx
  · rw [hbeat, hstanding]
    exact h.beat
  · rw [hgiven, hsame.req, hstanding]
    exact h.given

/-- **An edge of the data tenure of a read**, but for one that a word stands by. -/
theorem inv_reads {phase : Reader.Phase (BitVec 64)} (h : Reading phase s l)
    (hphase : (s.state = .readWait ∧ phase = .waiting) ∨
      (s.state = .readConfirm ∧ phase = .held s.provisional ∧
        (i.pins.teaN = false ∨ i.pins.drtryN = false)) ∨
      (s.state = .readReplace ∧ phase = .replacing)) :
    Inv (step s i) (l.update s i) := by
  have hreads : s.state.reads = true := by
    rcases hphase with ⟨hp, -⟩ | ⟨hp, -⟩ | ⟨hp, -⟩ <;> rw [hp] <;> rfl
  have hlive : phase.live = true := by
    rcases hphase with ⟨-, rfl⟩ | ⟨-, rfl, -⟩ | ⟨-, rfl⟩ <;> rfl
  have hk : Kept s (step s i) := kept_step hr hb hs
    (fun hf => by rw [hf] at hreads; cases hreads)
    (fun hf => by
      rcases hphase with ⟨hp, -⟩ | ⟨-, -, hc⟩ | ⟨hp, -⟩
      · rw [hf] at hp
        exact nomatch hp
      · exact hc
      · rw [hf] at hp
        exact nomatch hp)
  have hedges : (l.update s i).edges = l.edges ++ [i.pins.answer i.d] := by
    have hc : continues s = false := by
      rcases hphase with ⟨hp, -⟩ | ⟨hp, -⟩ | ⟨hp, -⟩ <;> simp [continues, hp]
    rw [update_bus hr hb (not_accepts hs), hc, hreads]
    rfl
  have hrun := Reader.run_concat (beats l.req) l.edges (i.pins.answer i.d)
  rw [Reader.take, h.phase] at hrun
  have habort : (i.pins.answer i.d).abort = !i.pins.teaN := rfl
  have hcancel : (i.pins.answer i.d).cancel = !i.pins.drtryN := rfl
  have hoffer : (i.pins.answer i.d).offer = !i.pins.taN := rfl
  have hword : (i.pins.answer i.d).word = i.d := rfl
  have hbus := step_bus (s := s) hr hb
  have hprovisional : i.pins.taN = false → (step s i).provisional = i.d := by
    intro hta
    rw [hbus, hta]
    rfl
  have hfails := inv_failed hr hb hs hp h hk hreads hedges hlive
  have hgo {x : Reader.Phase (BitVec 64)} {y : Phase} :=
    inv_unjudged (x := x) (y := y) hr hb hs hp h hk hreads hlive
  rcases hphase with ⟨ha, rfl⟩ | ⟨ha, rfl, hc⟩ | ⟨ha, rfl⟩
  · simp only [habort, hcancel] at hrun
    by_cases hbad : (!i.pins.teaN || !i.pins.drtryN) = true
    · rw [if_pos hbad] at hrun
      refine hfails (by rw [hedges, hrun]) ?_ (Or.inl ?_)
      · rw [hbus]
        simp [edge, ha, hbad]
      · simp only [edge, ha, hbad, if_true]
    · rw [if_neg hbad, Reader.resume, hoffer, hword] at hrun
      have hbeat : (step s i).beat = s.beat ∧ (step s i).err = s.err := by
        rw [hbus]
        simp only [edge, ha]
        rw [if_neg hbad]
        split_ifs <;> exact ⟨taken_beat s i, taken_err s i⟩
      cases hta : i.pins.taN with
      | true =>
        refine hgo (x := .waiting) (y := .readWait) ?_ (by rw [hrun]) hbeat.1 hbeat.2 ?_ (by decide) id
        · rw [hrun, hta]
          rfl
        · simp [edge, ha, hbad, hta]
      | false =>
        refine hgo (x := .held i.d) (y := .readConfirm) ?_ (by rw [hrun]) hbeat.1 hbeat.2 ?_ (by decide)
          fun h => ?_
        · rw [hrun, hta]
          rfl
        · simp only [edge, ha, hbad, hta]
          split_ifs <;> first | rfl | simp_all
        · rw [← hprovisional hta] at h
          exact h
  · simp only [habort, hcancel] at hrun
    cases htea : i.pins.teaN with
    | false =>
      rw [htea] at hrun
      refine hfails (by rw [hedges, hrun]; rfl) ?_ ?_
      · rw [hbus]
        simp only [edge, ha, htea]
        cases s.finalReleaseStarted <;> rfl
      · simp only [edge, ha, htea]
        cases s.finalReleaseStarted
        · exact Or.inl rfl
        · exact Or.inr rfl
    | true =>
      have hdrtry : i.pins.drtryN = false := by
        rcases hc with hc | hc
        · rw [htea] at hc
          cases hc
        · exact hc
      rw [htea, hdrtry] at hrun
      simp only [Bool.not_true, Bool.not_false, Bool.false_eq_true, if_false, if_true,
        Reader.replace, hoffer, hword] at hrun
      have hbeat : (step s i).beat = s.beat ∧ (step s i).err = s.err := by
        rw [hbus]
        simp [edge, ha, htea, hdrtry]
      cases hta : i.pins.taN with
      | true =>
        refine hgo (x := .replacing) (y := .readReplace) ?_ (by rw [hrun]) hbeat.1 hbeat.2 ?_
          (by decide) id
        · rw [hrun, hta]
          rfl
        · simp [edge, ha, htea, hdrtry, hta]
      | false =>
        refine hgo (x := .held i.d) (y := .readConfirm) ?_ (by rw [hrun]) hbeat.1 hbeat.2 ?_
          (by decide) fun h => ?_
        · rw [hrun, hta]
          rfl
        · simp [edge, ha, htea, hdrtry, hta]
        · rw [← hprovisional hta] at h
          exact h
  · simp only [habort, hcancel, Bool.not_not] at hrun
    by_cases hbad : (!i.pins.teaN || i.pins.drtryN) = true
    · rw [if_pos hbad] at hrun
      refine hfails (by rw [hedges, hrun]) ?_ ?_
      · rw [hbus]
        simp only [edge, ha, hbad, if_true]
        cases s.finalReleaseStarted <;> rfl
      · simp only [edge, ha, hbad, if_true]
        cases s.finalReleaseStarted
        · exact Or.inl rfl
        · exact Or.inr rfl
    · rw [if_neg hbad, Reader.replace, hoffer, hword] at hrun
      have hbeat : (step s i).beat = s.beat ∧ (step s i).err = s.err := by
        rw [hbus]
        simp only [edge, ha]
        rw [if_neg hbad]
        split_ifs <;> exact ⟨taken_beat s i, taken_err s i⟩
      cases hta : i.pins.taN with
      | true =>
        refine hgo (x := .replacing) (y := .readReplace) ?_ (by rw [hrun]) hbeat.1 hbeat.2 ?_
          (by decide) id
        · rw [hrun, hta]
          rfl
        · simp [edge, ha, hbad, hta]
      | false =>
        refine hgo (x := .held i.d) (y := .readConfirm) ?_ (by rw [hrun]) hbeat.1 hbeat.2 ?_
          (by decide) fun h => ?_
        · rw [hrun, hta]
          rfl
        · simp [edge, ha, hbad, hta]
        · rw [← hprovisional hta] at h
          exact h

omit hr hb hs hp in
/-- What a standing word changes, but for the word. -/
theorem confirmBeat_eq (b : State) : confirmBeat s b =
    { b with
      rdValid := if s.rqKind = kReadBurst then true else b.rdValid
      rdData := if s.rqKind = kReadBurst then s.provisional else b.rdData
      rqMerge :=
        if s.rqKind ≠ kReadBurst ∧ s.rqPlan.split = true ∧ s.rqPart = false then s.provisional
        else b.rqMerge
      fin :=
        if s.rqKind = kReadBurst ∨ (s.rqPlan.split = true ∧ s.rqPart = false) then b.fin
        else if s.rqPlan.split then
          s.rqMerge.extractLsb' 32 32 ++ s.provisional.extractLsb' 0 32
        else s.provisional } := by
  unfold confirmBeat
  by_cases hk : s.rqKind = kReadBurst
  · simp [hk]
  · cases s.rqPlan.split <;> cases s.rqPart <;> simp [hk]

/-- **An edge that a word stands by.** -/
theorem inv_stands (h : Reading (.held s.provisional) s l) (ha : s.state = .readConfirm)
    (htea : i.pins.teaN = true) (hdrtry : i.pins.drtryN = true) :
    Inv (step s i) (l.update s i) := by
  have hc : continues s = false := by simp [continues, ha]
  have hbus := step_bus (s := s) hr hb
  have hedges : (l.update s i).edges = l.edges ++ [i.pins.answer i.d] := by
    rw [update_bus hr hb (not_accepts hs), hc, ha]
    rfl
  have hret : (l.update s i).retried = false := by
    rw [(tenure_update (l := l) hr hb hs hp).1]
    simp [ha, h.retried]
  have hlog : Same l (l.update s i) ∧ (l.update s i).reads = l.given s ∧
      (l.update s i).writes = l.written s := by
    rw [update_bus hr hb (not_accepts hs), hc]
    exact ⟨⟨rfl, rfl, Bool.or_false _, rfl⟩, rfl, rfl⟩
  obtain ⟨hsame, hreads, hwrites⟩ := hlog
  have hkept : Kept s { step s i with
      rdValid := (taken s i).rdValid, rdData := (taken s i).rdData
      rqMerge := (taken s i).rqMerge, fin := (taken s i).fin } := by
    refine kept_of_erase (i := i) (not_accepts hs) ?_
    rw [hbus]
    simp only [edge, ha, htea, hdrtry, confirmBeat_eq, Bool.not_true, Bool.false_eq_true, if_false]
    split_ifs <;> rfl
  -- the word that stands
  have hword : (step s i).rdValid = decide (s.rqKind = kReadBurst) ∧ (step s i).rdError = false ∧
      (s.rqKind = kReadBurst → (step s i).rdData = s.provisional) ∧
      (step s i).rqMerge = (if s.rqKind ≠ kReadBurst ∧ s.rqPlan.split = true ∧ s.rqPart = false then
        s.provisional else s.rqMerge) ∧
      (step s i).fin = (if s.rqKind = kReadBurst ∨ (s.rqPlan.split = true ∧ s.rqPart = false) then
        s.fin else if s.rqPlan.split then
          s.rqMerge.extractLsb' 32 32 ++ s.provisional.extractLsb' 0 32 else s.provisional) := by
    rw [hbus]
    simp only [edge, ha, htea, hdrtry, confirmBeat_eq, Bool.not_true, Bool.false_eq_true, if_false]
    split_ifs <;> simp_all
  obtain ⟨hvalid, herror, hdata, hmerge, hfin⟩ := hword
  have hopen : Open (step s i) (l.update s i) := by
    refine ⟨hkept.valid.trans h.valid, hsame.live.trans h.live, ?_, ?_, ?_, ?_⟩
    · rw [hsame.req]
      exact ⟨hkept.kind.trans h.holds.kind, hkept.tt.trans h.holds.tt, hkept.addr.trans h.holds.addr,
        hkept.wimg.trans h.holds.wimg, hkept.gbl.trans h.holds.gbl, hkept.cse.trans h.holds.cse,
        hkept.data.trans h.holds.data, hkept.plan.trans h.holds.plan⟩
    · rw [hsame.part]
      exact hkept.part.trans h.part
    · have hdone : (step s i).wrDone = false := hkept.wrDone
      rw [Log.written, hwrites, hdone, h.written]
      rfl
    · rw [hsame.part, hsame.req, hsame.first]
      intro hpart
      rw [hmerge, h.part, hpart]
      simpa using h.first hpart
  have hloaded : Loaded (step s i) (l.update s i) := by
    refine ⟨?_, ?_, ?_⟩
    · rw [hsame.req]
      exact h.good
    · rw [hsame.req, hsame.part]
      exact hkept.pins.trans h.pins
    · rw [hsame.req]
      exact (congrArg (fun b : BitVec 2 => b.toNat + 1) hkept.last).trans h.last
  have hfollows : Reader.Follows (beats l.req) (l.edges ++ [i.pins.answer i.d]) :=
    h.follows.concat (by rw [h.phase]; rfl) _
  have hrun := Reader.run_concat (beats l.req) l.edges (i.pins.answer i.d)
  rw [Reader.take, h.phase] at hrun
  have habort : (i.pins.answer i.d).abort = false := by simp [MasterIn.answer, htea]
  have hcancel : (i.pins.answer i.d).cancel = false := by simp [MasterIn.answer, hdrtry]
  have hlen : (Reader.run (beats l.req) l.edges).kept.length = s.beat.toNat := by
    rw [h.follows.kept, h.beat]
  simp only [habort, hcancel, Bool.false_eq_true, if_false, hlen] at hrun
  have hstanding : standing (l.update s i).edges = standing l.edges ++ [s.provisional] := by
    rw [hedges, ← hfollows.kept, hrun, ← h.follows.kept]
    split_ifs <;> rfl
  have hgiven : (l.update s i).given (step s i) =
      if l.req.reqKind = kReadBurst then well (standing (l.update s i).edges) else [] := by
    rw [Log.given, hreads, h.given, hvalid, herror, h.holds.kind]
    by_cases hk : l.req.reqKind = kReadBurst
    · rw [if_pos hk, if_pos hk, if_pos (decide_eq_true hk), hdata (h.holds.kind.trans hk),
        hstanding, well, well, List.map_append]
      rfl
    · rw [if_neg hk, if_neg hk, decide_eq_false hk]
      rfl
  have hlength : (standing (l.update s i).edges).length = s.beat.toNat + 1 := by
    rw [hstanding, List.length_append, ← h.beat]
    rfl
  have herr : (step s i).err = false := by
    rw [hbus]
    simp only [edge, ha, htea, hdrtry, confirmBeat_eq, Bool.not_true, Bool.false_eq_true, if_false]
    split_ifs <;> exact (taken_err s i).trans h.err
  have hact : (step s i).actPush = false := hkept.actPush.trans hp
  by_cases hlast : s.beat = s.lastBeat
  · have hx : (edge s i).state = .finish := by simp [edge, ha, htea, hdrtry, hlast]
    have hfull : s.beat.toNat + 1 = beats l.req := by rw [hlast]; exact h.last
    refine inv_active hr hb hx (by decide) hact ⟨hopen, hret, ?_, ?_, ?_, ?_⟩
    · rw [hsame.req]
      exact hgiven
    · intro hno
      rw [herr] at hno
      cases hno
    · intro _ hkind
      rw [hsame.req] at hkind
      rw [hlength, hfull, beats, burstKind, hkind]
      rfl
    · intro _ hkind
      rw [hsame.req] at hkind
      have hnot : ¬ l.req.reqKind = kReadBurst := by rw [hkind]; decide
      have hone : standing (l.update s i).edges = [s.provisional] := by
        rcases beats_of_kind h.read with ⟨hk, -⟩ | ⟨-, h1⟩
        · exact absurd hk hnot
        · have hnone : standing l.edges = [] := by
            rw [← List.length_eq_zero_iff, ← h.beat]
            omega
          rw [hstanding, hnone, List.nil_append]
      rw [hsame.req, hsame.part, hone, hmerge, hfin, h.holds.kind, h.holds.plan, h.part]
      cases hsplit : (planSingle l.req.reqBe).split <;> cases hpart : l.part <;> simp [hnot]
  · have hne : s.beat.toNat + 1 ≠ beats l.req := by
      rw [← h.last]
      intro heq
      exact hlast (BitVec.eq_of_toNat_eq (by omega))
    have hburst : beats l.req = 4 := by
      rcases beats_of_kind h.read with ⟨-, h4⟩ | ⟨-, h1⟩
      · exact h4
      · have hlive := h.follows.live (by rw [h.phase]; rfl)
        rw [hlen] at hlive
        omega
    have hlive := h.follows.live (by rw [h.phase]; rfl)
    rw [hlen, hburst] at hlive
    rw [hburst] at hne
    rw [if_neg (by rw [hburst]; exact hne), Reader.resume] at hrun
    have hoffer : (i.pins.answer i.d).offer = !i.pins.taN := rfl
    have hbeat : (step s i).beat.toNat = (standing (l.update s i).edges).length := by
      have hplus : (step s i).beat = s.beat + 1 := by
        rw [hbus]
        simp only [edge, ha, htea, hdrtry, Bool.not_true, Bool.false_eq_true, if_false, hlast]
        split_ifs <;> rfl
      have hone : (1 : BitVec 2).toNat = 1 := rfl
      rw [hplus, hlength, BitVec.toNat_add, hone]
      omega
    have hreading : ∀ {x}, (Reader.run (beats l.req) (l.edges ++ [i.pins.answer i.d])).phase = x →
        Reading x (step s i) (l.update s i) := fun hx =>
      ⟨hopen, hloaded, herr, by rw [hsame.req]; exact h.read, hret,
        by rw [hsame.req, hedges]; exact hfollows, by rw [hsame.req, hedges]; exact hx, hbeat,
        by rw [hsame.req]; exact hgiven⟩
    cases hta : i.pins.taN with
    | true =>
      refine inv_active hr hb (x := .readWait) ?_ (by decide) hact (hreading ?_)
      · simp only [edge, ha, htea, hdrtry, hta, Bool.not_true, Bool.false_eq_true, if_false, hlast]
      · rw [hrun, hoffer, hta]
        rfl
    | false =>
      refine inv_active hr hb (x := .readConfirm) ?_ (by decide) hact ?_
      · simp only [edge, ha, htea, hdrtry, hta, Bool.not_true, Bool.false_eq_true, if_false, hlast]
        split_ifs <;> first | rfl | simp_all
      · have hprov : (step s i).provisional = i.d := by rw [hbus, hta]; rfl
        refine hreading ?_
        rw [hrun, hoffer, hta, hprov]
        rfl

/-- The data bus is released. -/
theorem inv_release (h : Ending s l) (ha : s.state = .dataRelease) :
    Inv (step s i) (l.update s i) := by
  have hc : continues s = false := by simp [continues, ha]
  have hk : Kept s (step s i) := kept_step hr hb hs (fun hf => by rw [ha] at hf; exact nomatch hf)
    (fun hf => by rw [ha] at hf; exact nomatch hf)
  have hno := not_accepts (i := i) hs
  obtain ⟨hsame, hgiven, -⟩ := quiet_step (l := l) hr hb hno hk.toSlots hc
  have hedges := edges_quiet (l := l) hr hb hno hc (by rw [ha]; rfl)
  obtain ⟨hret, habort⟩ := tenure_update (l := l) hr hb hs hp
  have herr : (step s i).err = s.err := by
    rw [step_bus hr hb]
    simp [edge, ha]
  refine inv_active hr hb (x := .finish) (by simp [edge, ha]) (by decide) (hk.actPush.trans hp)
    ⟨h.toOpen.quiet hr hb hno hk.toSlots hc, ?_, ?_, ?_, ?_, ?_⟩
  · rw [hret]
    simp [ha, h.retried]
  · rw [hgiven, hsame.req, hedges]
    exact h.given
  · have hfailed : Failed (l.update s i) ↔ Failed l := by
      have haborted : (l.update s i).aborted = l.aborted := by rw [habort]; simp [ha]
      rw [Failed, Failed, hsame.req, hedges, haborted]
    rw [herr, hfailed, hsame.req, hedges]
    exact h.failed
  · rw [herr, hsame.req, hedges]
    exact h.burst
  · rw [herr, hsame.req, hsame.part, hedges, hk.fin, hk.merge]
    exact h.single

/-- **The end of a part.** -/
theorem inv_finish (h : Ending s l) (ha : s.state = .finish) : Inv (step s i) (l.update s i) := by
  have hno := not_accepts (i := i) hs
  have hbus := step_bus (s := s) hr hb
  have ht := kept_taken hno
  have hx : (edge s i).state = .idle := by simp [edge, ha]
  obtain ⟨hret, habort⟩ := tenure_update (l := l) hr hb hs hp
  have hretried : (l.update s i).retried = false := by rw [hret]; simp [ha, h.retried]
  have haborted : (l.update s i).aborted = l.aborted := by rw [habort]; simp [ha]
  have hlog := update_bus (l := l) hr hb hno
  have hreq : (l.update s i).req = l.req ∧ (l.update s i).live = l.live := by
    rw [hlog]
    exact ⟨rfl, rfl⟩
  refine inv_resting hr hb hx ?_
  unfold Resting
  have hkind := h.holds.kind
  have hplan := h.holds.plan
  cases hc : continues s with
  | true =>
    have hcont := hc
    simp only [continues, Bool.and_eq_true, Bool.not_eq_true', decide_eq_true_eq] at hcont
    obtain ⟨⟨⟨⟨-, hsingle⟩, hsplit⟩, hpart⟩, herr⟩ := hcont
    -- the second part is as the first was, but for its number
    have hfin : ∀ b, finish s s.err b = { b with rqPart := true } := by
      intro b
      rw [finish, hp, hsingle, hsplit, hpart, herr]
      rfl
    have hstep : Slots s { step s i with rqPart := (taken s i).rqPart } ∧
        (step s i).rqPart = true := by
      rw [hbus]
      simp only [edge, ha, hfin]
      refine ⟨?_, trivial⟩
      refine (kept_of_erase (i := i) hno ?_).toSlots
      rfl
    obtain ⟨hslots, hpart'⟩ := hstep
    have hnot : ¬ l.req.reqKind = kReadBurst := by
      rw [← hkind]
      simp only [curSingle, Bool.and_eq_true, Bool.or_eq_true, decide_eq_true_eq] at hsingle
      rcases hsingle.2 with hk | hk <;> rw [hk] <;> decide
    have hgiven := h.given
    rw [if_neg hnot] at hgiven
    have hvalid : (step s i).rqValid = true := hslots.valid.trans h.valid
    have hrd : (step s i).rdValid = false := hslots.rdValid
    have hwr : (step s i).wrDone = false := hslots.wrDone
    rw [hvalid, if_pos rfl]
    rw [hlog, hc]
    refine ⟨⟨hvalid, h.live, ?_, ?_, ?_, ?_⟩, rfl, ?_, ?_⟩
    · exact ⟨hslots.kind.trans hkind, hslots.tt.trans h.holds.tt, hslots.addr.trans h.holds.addr,
        hslots.wimg.trans h.holds.wimg, hslots.gbl.trans h.holds.gbl,
        hslots.cse.trans h.holds.cse, hslots.data.trans h.holds.data, hslots.plan.trans hplan⟩
    · rw [hpart']
      exact (Bool.or_true _).symm
    · rw [Log.written, hwr, h.written]
      rfl
    · intro _
      have hmerge : (step s i).rqMerge = s.rqMerge := hslots.merge
      refine ⟨by rw [← hplan]; exact hsplit, fun hk => ?_⟩
      have hword := h.single herr hk
      rw [← hplan, hsplit, if_pos rfl, ← h.part, hpart, if_neg Bool.false_ne_true] at hword
      rw [hmerge]
      exact hword
    · rw [Log.given, hrd, hgiven]
      rfl
    · rw [hlog, hc] at hretried
      exact fun _ => hretried
  | false =>
    have hnot : (curSingle s && s.rqPlan.split && !s.rqPart && !s.err) = false := by
      simpa [continues, ha, hp] using hc
    have hstep : (step s i).rqValid = false ∧
        (step s i).rdValid = (readKind l.req && (s.err || decide (s.rqKind = kReadSingle))) ∧
        (step s i).wrDone = !readKind l.req ∧
        ((step s i).rdValid = true → (step s i).rdError = s.err ∧
          (step s i).rdData = if s.err then 0 else s.fin) ∧
        ((step s i).wrDone = true → (step s i).wrError = s.err) := by
      have hread : curRead s = readKind l.req := by rw [curRead, hp, hkind]; rfl
      have hfin : ∀ b, finish s s.err b =
          if curRead s then
            if s.err || s.rqKind = kReadSingle then
              { b with rqValid := false, rdValid := true, rdError := s.err
                       rdData := if s.err then 0 else s.fin }
            else { b with rqValid := false }
          else { b with rqValid := false, wrDone := true, wrError := s.err } := by
        intro b
        rw [finish, hp, hnot]
        rfl
      have hwr : (taken s i).wrDone = false := ht.wrDone
      rw [hbus]
      simp only [edge, ha, hfin, hread]
      cases readKind l.req with
      | true =>
        cases hq : (s.err || decide (s.rqKind = kReadSingle)) <;> simp [hwr]
      | false => simp
    obtain ⟨hvalid, hrd, hwr, hanswer, hdone⟩ := hstep
    rw [hvalid, if_neg Bool.false_ne_true, hreq.2, h.live, if_pos rfl]
    refine ⟨?_, hretried⟩
    have hedges : (l.update s i).edges = l.edges ∧ (l.update s i).first = l.first := by
      rw [hlog, hc, ha]
      exact ⟨rfl, rfl⟩
    have hgiven : (l.update s i).given (step s i) =
        l.given s ++ if (step s i).rdValid then [((step s i).rdError, (step s i).rdData)] else [] := by
      rw [hlog]
      rfl
    have hwritten : (l.update s i).written (step s i) =
        if (step s i).wrDone then [(step s i).wrError] else [] := by
      rw [hlog, Log.written, h.written]
      rfl
    have hfailed : Failed (l.update s i) ↔ Failed l := by
      rw [Failed, Failed, hreq.1, hedges.1, haborted]
    refine ⟨?_, ?_, ?_⟩
    · intro hb
      rw [hreq.1] at hb
      have hread : readKind l.req = true := by rw [readKind, hb]; rfl
      have hns : ¬ s.rqKind = kReadSingle := by rw [hkind, hb]; decide
      have hpre := h.given
      rw [if_pos hb] at hpre
      rw [hwritten, hgiven, hwr, hread, hpre, hedges.1, hfailed]
      refine ⟨rfl, ?_⟩
      rw [hread, Bool.true_and, decide_eq_false hns, Bool.or_false] at hrd
      cases herr : s.err with
      | true =>
        rw [herr] at hrd
        obtain ⟨he, hd⟩ := hanswer hrd
        rw [hrd, if_pos rfl, he, hd, herr, if_pos rfl]
        exact Or.inr ⟨rfl, (h.failed herr hread).2 hb, (h.failed herr hread).1⟩
      | false =>
        rw [herr] at hrd
        rw [hrd, if_neg Bool.false_ne_true, List.append_nil]
        exact Or.inl ⟨rfl, h.burst herr hb⟩
    · intro hb
      rw [hreq.1] at hb
      have hread : readKind l.req = true := by rw [readKind, hb]; rfl
      have hs : s.rqKind = kReadSingle := hkind.trans hb
      have hpre := h.given
      rw [if_neg (by rw [hb]; decide)] at hpre
      rw [hread, Bool.true_and, decide_eq_true hs, Bool.or_true] at hrd
      obtain ⟨he, hd⟩ := hanswer hrd
      rw [hwritten, hgiven, hwr, hread, hpre, hrd, if_pos rfl, he, hd, hfailed]
      refine ⟨rfl, ?_⟩
      cases herr : s.err with
      | true => exact Or.inr ⟨rfl, (h.failed herr hread).1⟩
      | false =>
        refine Or.inl ⟨s.fin, rfl, ?_⟩
        rw [Single, hreq.1, hedges.1, hedges.2]
        have hword := h.single herr hb
        have hcs : curSingle s = true := by rw [curSingle, hp, hs]; rfl
        split_ifs at hword ⊢ with hsplit hpart
        · obtain ⟨w, hw, hv⟩ := hword
          exact ⟨s.rqMerge, w, (h.first hpart).2 hb, hw, hv⟩
        · rw [Bool.not_eq_true] at hpart
          rw [hcs, hplan, hsplit, h.part, hpart, herr] at hnot
          cases hnot
        · exact hword
    · intro hb
      rw [hreq.1] at hb
      have hpre := h.given
      rw [if_neg (fun hk => by rw [readKind, hk] at hb; cases hb)] at hpre
      rw [hb] at hrd hwr
      rw [hgiven, hwritten, hrd, hwr, hpre]
      exact ⟨rfl, _, rfl⟩

end Tenure

/-! ## A clock edge -/

section Step

variable {s : State} {i : Input} {l : Log}

/-- The pins of a part. -/
theorem loadTenure_spec (h : Waiting s l) (b : State) :
    curAttributes (loadTenure s false s.rqPart b) = attributes l.req l.part ∧
      (loadTenure s false s.rqPart b).lastBeat = (if burstKind l.req then 3 else 0) ∧
      (loadTenure s false s.rqPart b).actPush = false ∧ (loadTenure s false s.rqPart b).beat = 0 ∧
      (loadTenure s false s.rqPart b).err = b.err := by
  have hq := h.holds
  refine ⟨?_, ?_, rfl, rfl, rfl⟩
  · rw [curAttributes, loadTenure, if_neg Bool.false_ne_true, hq.kind, hq.tt, hq.addr, hq.wimg,
      hq.gbl, hq.cse, hq.plan, h.part]
    rfl
  · rw [loadTenure, if_neg Bool.false_ne_true, hq.kind]
    rfl

/-- **An edge with no tenure in progress.** -/
theorem inv_idle (h : Resting s l) (hr : i.rstN = true) (hb : i.busCe = true)
    (hs : s.state = .idle) : Inv (step s i) (l.update s i) := by
  have hbus := step_bus (s := s) hr hb
  have hc : continues s = false := by simp [continues, hs]
  cases hacc : accepts s i with
  | true =>
    obtain ⟨-, hvalid, hpush⟩ := accepts_spec hacc
    have hx : (edge s i).state = .idle := by simp [edge, hs, startPush, startReq, hvalid, hpush]
    have hlog : l.update s i = ⟨true, i, false, [], [], [], [], false, false⟩ := by
      simp [Log.update, hr, hb, hacc]
    have hacc' : (i.reqValid && reqReady s i) = true := hacc
    have hstep : step s i = { step s i with
        rqValid := true, rqKind := i.reqKind, rqTt := i.reqTt, rqAddr := i.reqAddr
        rqWimg := i.reqWimg, rqGbl := i.reqGbl, rqCse := i.reqCse, rqData := i.reqData
        rqPlan := planSingle i.reqBe, rqPart := false, rdValid := false, wrDone := false } := by
      rw [hbus]
      simp only [edge, hs, startPush, startReq, hvalid, hpush, taken, hacc']
      simp only [if_true]
      split_ifs <;> simp_all
    refine inv_resting hr hb hx ?_
    unfold Resting
    rw [hlog, hstep, if_pos rfl]
    exact ⟨⟨rfl, rfl, ⟨rfl, rfl, rfl, rfl, rfl, rfl, rfl, rfl⟩, rfl, rfl, nofun⟩, rfl, rfl,
      fun _ => rfl⟩
  | false =>
    have hrest : (l.update s i).retried = l.retried ∧ (l.update s i).aborted = l.aborted := by
      rw [update_bus hr hb hacc, hs]
      simp
    have hslots : Slots s (step s i) := by
      have ht := (kept_taken hacc).toSlots
      rw [hbus]
      simp only [edge, hs]
      unfold loadTenure
      split_ifs <;> exact ⟨ht.valid, ht.kind, ht.tt, ht.addr, ht.wimg, ht.gbl, ht.cse, ht.data,
        ht.plan, ht.part, ht.merge, ht.fin, ht.rdValid, ht.wrDone⟩
    have hstill := resting_quiet hr hb hacc hslots hc h (by rw [hs]; rfl) hrest
    cases hpush : startPush s with
    | true =>
      have hx : (step s i).state = .addrRequest ∧ (step s i).actPush = true := by
        rw [hbus]
        simp [edge, hs, hpush, loadTenure]
      rw [Inv, hx.1, hx.2, if_neg (by decide), if_pos rfl]
      exact ⟨hstill, rfl⟩
    | false =>
      cases hreq : startReq s i with
      | false =>
        exact inv_resting hr hb (by simp [edge, hs, hpush, hreq]) hstill
      | true =>
        have hvalid : s.rqValid = true := by
          simp only [startReq, Bool.and_eq_true] at hreq
          exact hreq.2
        have hwait : Waiting s l := by rwa [Resting, if_pos hvalid] at h
        have hwaits : Waiting (step s i) (l.update s i) := by
          rwa [Resting, hslots.valid, if_pos hvalid] at hstill
        obtain ⟨hsame, -, -⟩ := quiet_step (l := l) hr hb hacc hslots hc
        have hbad : badReq s = bad l.req := by
          rw [badReq, bad, hwait.holds.kind, hwait.holds.plan]
        cases hb' : badReq s with
        | true =>
          have hx : (edge s i).state = .finish := by simp [edge, hs, hpush, hreq, hb']
          have hact : (step s i).actPush = false ∧ (step s i).err = true := by
            rw [hbus]
            simp [edge, hs, hpush, hreq, hb']
          have hfailed : bad l.req = true := hbad.symm.trans hb'
          refine inv_active hr hb hx (by decide) hact.1 (ending_of_waiting hwaits
            (hrest.1.trans (hwait.untried hfailed)) (Or.inr ⟨hact.2, Or.inl ?_⟩))
          rw [hsame.req]
          exact hfailed
        | false =>
          have hx : (edge s i).state = .addrRequest := by simp [edge, hs, hpush, hreq, hb']
          obtain ⟨b, hberr, hedge⟩ : ∃ b : State, b.err = false ∧
              edge s i = { loadTenure s false s.rqPart b with state := .addrRequest } := by
            refine ⟨{ taken s i with
              addrReleasePending := false, dataReleasePending := false
              finalReleaseStarted := false, releaseOeCycle := false, err := false }, rfl, ?_⟩
            simp only [edge, hs, hpush, hreq, hb', Bool.false_eq_true, if_false, if_true]
          obtain ⟨hpins, hlast, hact, hbeat, herr⟩ := loadTenure_spec hwait b
          have hload : (step s i).actPush = false ∧ (step s i).beat = 0 ∧ (step s i).err = false ∧
              curAttributes (step s i) = attributes l.req l.part ∧
              (step s i).lastBeat = if burstKind l.req then 3 else 0 := by
            rw [hbus, hedge]
            exact ⟨hact, hbeat, herr.trans hberr, hpins, hlast⟩
          refine inv_active hr hb hx (by decide) hload.1 ⟨hwaits, ⟨?_, ?_, ?_⟩, hload.2.1, hload.2.2.1⟩
          · rw [hsame.req, ← hbad, hb']
          · rw [hsame.req, hsame.part]
            exact hload.2.2.2.1
          · rw [hload.2.2.2.2, hsame.req, beats]
            split_ifs <;> rfl

/-- **A tenure of a push leaves the request as it was.** -/
theorem inv_push (h : Resting s l) (hreads : s.state.reads = false) (hr : i.rstN = true)
    (hb : i.busCe = true) (hs : s.state ≠ .idle) (hp : s.actPush = true) :
    Inv (step s i) (l.update s i) := by
  have hno := not_accepts (i := i) hs
  have hk : Kept s (step s i) := kept_step hr hb hs (fun _ => hp)
    (fun hf => by rw [hf] at hreads; cases hreads)
  have hc : continues s = false := by simp [continues, hp]
  have hrest : (l.update s i).retried = l.retried ∧ (l.update s i).aborted = l.aborted := by
    rw [update_bus hr hb hno, hp]
    simp
  have hstill := resting_quiet hr hb hno hk.toSlots hc h hreads hrest
  have hact : (step s i).actPush = true := hk.actPush.trans hp
  have hstate : (step s i).state.reads = false := by
    have hwrite : curWrite s = true := by simp [curWrite, hp]
    rw [step_bus hr hb]
    unfold edge
    generalize htaken : taken s i = b
    have hsame : b.state = s.state := by rw [← htaken, taken_state]
    cases hst : s.state with
    | idle => exact absurd hst hs
    | readWait | readConfirm | readReplace =>
      rw [hst] at hreads
      cases hreads
    | _ =>
      rw [hst] at hsame
      dsimp only
      (try split_ifs) <;> first | rfl | (rw [hsame]; rfl)
  unfold Inv
  split_ifs with hidle
  · exact hstill
  · exact ⟨hstill, hstate⟩

/-- A cycle between bus edges. -/
theorem inv_slow (h : Inv s l) (slow : Bool) : Inv { s with slow := slow } l := by
  have hopen : Open s l → Open { s with slow := slow } l := fun h =>
    ⟨h.valid, h.live, ⟨h.holds.kind, h.holds.tt, h.holds.addr, h.holds.wimg, h.holds.gbl,
      h.holds.cse, h.holds.data, h.holds.plan⟩, h.part, h.written, h.first⟩
  have hwait : Waiting s l → Waiting { s with slow := slow } l := fun h =>
    ⟨hopen h.toOpen, h.edges, h.given, h.untried⟩
  have hload : Loaded s l → Loaded { s with slow := slow } l := fun h => ⟨h.good, h.pins, h.last⟩
  have hask : Asking s l → Asking { s with slow := slow } l := fun h =>
    ⟨hwait h.toWaiting, hload h.toLoaded, h.beat, h.err⟩
  have hread : ∀ {x}, Reading x s l → Reading x { s with slow := slow } l := fun h =>
    ⟨hopen h.toOpen, hload h.toLoaded, h.err, h.read, h.retried, h.follows, h.phase, h.beat, h.given⟩
  have hend : Ending s l → Ending { s with slow := slow } l := fun h =>
    ⟨hopen h.toOpen, h.retried, h.given, h.failed, h.burst, h.single⟩
  have hrest : Resting s l → Resting { s with slow := slow } l := by
    intro h
    unfold Resting at h ⊢
    split_ifs at h ⊢
    · exact hwait h
    · exact ⟨⟨h.1.burst, h.1.single, h.1.other⟩, h.2⟩
    · exact h
  have hactive : ∀ x : Phase, x.Active s l → x.Active { s with slow := slow } l := by
    intro x h
    cases x with
    | idle => exact h
    | addrRequest | retryGap | addrTransfer => exact hask h
    | addrWait | addrRetrySample | dataRequest | addrAbort => exact ⟨hask h.1, h.2⟩
    | writeBeat => exact ⟨hwait h.1, hload h.2.1, h.2.2⟩
    | readWait | readConfirm | readReplace => exact hread h
    | dataRelease => exact ⟨hend h.1, hload h.2⟩
    | finish => exact hend h
  unfold Inv at h ⊢
  split_ifs at h ⊢
  · exact hrest h
  · exact ⟨hrest h.1, h.2⟩
  · exact hactive _ h

/-- **A clock edge.** -/
theorem inv_step (h : Inv s l) : Inv (step s i) (l.update s i) := by
  cases hr : i.rstN with
  | false =>
    have hstep : (step s i).state = .idle ∧ (step s i).rqValid = false ∧
        (step s i).rdValid = false ∧ (step s i).wrDone = false := by simp [step, hr, reset]
    rw [Inv, hstep.1, if_pos rfl, Log.update, hr, Resting, hstep.2.1]
    exact hstep.2.2
  | true =>
    cases hb : i.busCe with
    | false =>
      have hlog : l.update s i = l := by simp [Log.update, hr, hb]
      have hstep : step s i = { s with slow := true } := by simp [step, hr, hb]
      rw [hlog, hstep]
      exact inv_slow h true
    | true =>
      unfold Inv at h
      split_ifs at h with hs hp
      · exact inv_idle h hr hb hs
      · exact inv_push h.1 h.2 hr hb hs hp
      · rw [Bool.not_eq_true] at hp
        cases hst : s.state with
        | idle => exact absurd hst hs
        | addrRequest =>
          rw [hst] at h
          exact inv_address hr hb hs hp h (Or.inl hst)
        | retryGap =>
          rw [hst] at h
          exact inv_address hr hb hs hp h (Or.inr (Or.inl hst))
        | addrTransfer =>
          rw [hst] at h
          exact inv_address hr hb hs hp h (Or.inr (Or.inr (Or.inl hst)))
        | addrWait =>
          rw [hst] at h
          exact inv_address hr hb hs hp h.1 (Or.inr (Or.inr (Or.inr (Or.inl ⟨Or.inl hst, h.2⟩))))
        | addrRetrySample =>
          rw [hst] at h
          exact inv_address hr hb hs hp h.1 (Or.inr (Or.inr (Or.inr (Or.inl ⟨Or.inr hst, h.2⟩))))
        | dataRequest =>
          rw [hst] at h
          exact inv_address hr hb hs hp h.1 (Or.inr (Or.inr (Or.inr (Or.inr ⟨hst, h.2⟩))))
        | addrAbort =>
          rw [hst] at h
          exact inv_abort hr hb hs hp h.1 h.2.1 h.2.2 hst
        | writeBeat =>
          rw [hst] at h
          exact inv_write hr hb hs hp h.1 h.2.1 h.2.2.1 h.2.2.2 hst
        | readWait =>
          rw [hst] at h
          exact inv_reads hr hb hs hp h (Or.inl ⟨hst, rfl⟩)
        | readReplace =>
          rw [hst] at h
          exact inv_reads hr hb hs hp h (Or.inr (Or.inr ⟨hst, rfl⟩))
        | readConfirm =>
          rw [hst] at h
          cases htea : i.pins.teaN with
          | false => exact inv_reads hr hb hs hp h (Or.inr (Or.inl ⟨hst, rfl, Or.inl htea⟩))
          | true =>
            cases hdrtry : i.pins.drtryN with
            | false => exact inv_reads hr hb hs hp h (Or.inr (Or.inl ⟨hst, rfl, Or.inr hdrtry⟩))
            | true => exact inv_stands hr hb hs hp h hst htea hdrtry
        | dataRelease =>
          rw [hst] at h
          exact inv_release hr hb hs hp h.1 hst
        | finish =>
          rw [hst] at h
          exact inv_finish hr hb hs hp h hst

/-! ### The push -/

/-- What an edge does with the push slot and the tenure, but for a push that ends. -/
def pushSlot (s : State) : Bool × BitVec 32 × BitVec 256 × Bool :=
  ⟨s.puValid, s.puAddr, s.puData, s.pushDone⟩

theorem pushSlot_taken (s : State) (i : Input) : pushSlot (taken s i) =
    if pushAccept s i then ⟨true, i.pushAddr, i.pushData, false⟩
    else ⟨s.puValid, s.puAddr, s.puData, false⟩ := by
  unfold taken
  split_ifs <;> rfl

/-- A request that ends leaves the push as it was. -/
theorem pushSlot_finish_request (hp : s.actPush = false) (e : Bool) (b : State) :
    pushSlot (finish s e b) = pushSlot b := by
  unfold finish
  rw [hp, if_neg Bool.false_ne_true]
  split_ifs <;> rfl

theorem pushSlot_step (hr : i.rstN = true) (hb : i.busCe = true)
    (hf : s.state = .finish → s.actPush = false) :
    pushSlot (step s i) = pushSlot (taken s i) := by
  have hedge : pushSlot (step s i) = pushSlot (edge s i) := by
    rw [step_bus hr hb]
    rfl
  rw [hedge]
  unfold edge
  generalize taken s i = b
  cases hstate : s.state with
  | finish => exact pushSlot_finish_request (hf hstate) _ _
  | readConfirm =>
    have hconfirm : ∀ x, pushSlot (confirmBeat s x) = pushSlot x := by
      intro x
      rw [confirmBeat]
      split_ifs <;> rfl
    dsimp only
    split_ifs <;> first | rfl | exact hconfirm _
  | _ =>
    dsimp only [loadTenure]
    (try split_ifs) <;> rfl

theorem push_update {l : PushLog} (hr : i.rstN = true) (hb : i.busCe = true)
    (ha : pushAccept s i = false) : l.update s i =
    { l with
      dones := l.given s
      retried :=
        if !s.actPush then l.retried
        else if s.state = .addrRetrySample then !i.pins.artryN
        else if s.state = .addrTransfer then false else l.retried } := by
  simp [PushLog.update, hr, hb, ha]

/-- The tenure in progress, but for its beats. -/
theorem curAttributes_step (hr : i.rstN = true) (hb : i.busCe = true) (hs : s.state ≠ .idle) :
    (step s i).actPush = s.actPush ∧ curAttributes (step s i) = curAttributes s := by
  have htaken : (taken s i).actPush = s.actPush ∧
      curAttributes (taken s i) = curAttributes s := by
    unfold taken
    split_ifs <;> exact ⟨rfl, rfl⟩
  have hfinish : ∀ e x, (finish s e x).actPush = x.actPush ∧
      curAttributes (finish s e x) = curAttributes x := by
    intro e x
    unfold finish
    split_ifs <;> exact ⟨rfl, rfl⟩
  have hconfirm : ∀ x, (confirmBeat s x).actPush = x.actPush ∧
      curAttributes (confirmBeat s x) = curAttributes x := by
    intro x
    unfold confirmBeat
    split_ifs <;> exact ⟨rfl, rfl⟩
  rw [step_bus hr hb, ← htaken.1, ← htaken.2]
  unfold edge
  generalize taken s i = b
  cases hstate : s.state with
  | idle => exact absurd hstate hs
  | finish => exact hfinish s.err _
  | readConfirm =>
    dsimp only
    split_ifs <;> first | exact ⟨rfl, rfl⟩ | exact hconfirm _
  | _ =>
    dsimp only
    (try split_ifs) <;> exact ⟨rfl, rfl⟩

/-- Its beats are counted to the same end. -/
theorem lastBeat_step (hr : i.rstN = true) (hb : i.busCe = true) (hs : s.state ≠ .idle) :
    (step s i).lastBeat = s.lastBeat := by
  have htaken : (taken s i).lastBeat = s.lastBeat := by
    unfold taken
    split_ifs <;> rfl
  have hfinish : ∀ e x, (finish s e x).lastBeat = x.lastBeat := by
    intro e x
    unfold finish
    split_ifs <;> rfl
  have hconfirm : ∀ x, (confirmBeat s x).lastBeat = x.lastBeat := by
    intro x
    unfold confirmBeat
    split_ifs <;> rfl
  rw [step_bus hr hb, ← htaken]
  unfold edge
  generalize taken s i = b
  cases hstate : s.state with
  | idle => exact absurd hstate hs
  | finish => exact hfinish s.err _
  | readConfirm =>
    dsimp only
    split_ifs <;> first | rfl | exact hconfirm _
  | addrRequest | addrTransfer | addrWait | addrRetrySample | dataRequest | writeBeat | readWait
  | readReplace =>
    dsimp only
    split_ifs <;> rfl
  | addrAbort | retryGap | dataRelease => rfl

/-- A tenure that begins is the push's when there is one. -/
theorem idle_goes (hr : i.rstN = true) (hb : i.busCe = true) (hs : s.state = .idle)
    (hgo : (step s i).state ≠ .idle) : (step s i).actPush = s.puValid ∧
      (s.puValid = true → (step s i).state = .addrRequest ∧
        curAttributes (step s i) =
          ⟨s.puAddr &&& ~~~31, ttWriteKill, false, tsizBurst, 0, true, true, true, 0⟩) := by
  rw [step_bus hr hb] at hgo ⊢
  simp only [edge, hs, startPush, decide_true, Bool.true_and] at hgo ⊢
  cases hpush : s.puValid with
  | true => exact ⟨rfl, fun _ => ⟨rfl, rfl⟩⟩
  | false =>
    simp only [hpush, Bool.false_eq_true, if_false] at hgo ⊢
    refine ⟨?_, nofun⟩
    cases hreq : startReq s i with
    | false => simp [hreq, hs] at hgo
    | true => cases hbad : badReq s <;> rfl

theorem pushing_of_inv {l : PushLog} (h : PushInv s l) (hs : s.state ≠ .idle)
    (hp : s.actPush = true) : Pushing s l := by
  have ht := h.tenure hs
  rwa [if_pos hp] at ht

/-- No push is retried but the one in its tenure. -/
theorem push_free {l : PushLog} (h : PushInv s l) (hr : i.rstN = true) (hb : i.busCe = true)
    (ha : pushAccept s i = false) (hfree : s.puValid = false ∨ (s.state ≠ .idle ∧ s.actPush = false)) :
    (l.update s i).retried = false := by
  have hret : l.retried = false := by
    rcases hfree with hv | ⟨hs, hp⟩
    · exact (h.free hv).1
    · have ht := h.tenure hs
      rwa [hp, if_neg Bool.false_ne_true] at ht
  have hno : s.actPush = true → s.state = .idle := by
    intro hp
    by_contra hs
    rcases hfree with hv | ⟨-, hp'⟩
    · rw [(pushing_of_inv h hs hp).1] at hv
      cases hv
    · rw [hp'] at hp
      cases hp
  rw [push_update hr hb ha]
  cases hp : s.actPush with
  | false => exact hret
  | true =>
    rw [hno hp]
    exact hret

/-- **The push slot over an edge.** -/
theorem pushSlot_inv {l : PushLog} (h : PushInv s l) (hr : i.rstN = true) (hb : i.busCe = true) :
    PushSlot (step s i) (l.update s i) := by
  have hends : s.state = .finish → s.actPush = true → s.puValid = true := fun hs hp =>
    (pushing_of_inv h (by rw [hs]; decide) hp).1
  have hview : ∀ {a b c d}, pushSlot (step s i) = (a, b, c, d) → (step s i).puValid = a ∧
      (step s i).puAddr = b ∧ (step s i).puData = c ∧ (step s i).pushDone = d := by
    rintro a b c d heq
    simpa [pushSlot] using heq
  cases ha : pushAccept s i with
  | true =>
    have hv : s.puValid = false := by
      simp only [pushAccept, pushReady, Bool.and_eq_true, Bool.not_eq_true'] at ha
      exact ha.2.2
    have hstep := pushSlot_step hr hb fun hs => by
      by_contra hp
      rw [hends hs (by simpa using hp)] at hv
      exact absurd hv (by decide)
    rw [pushSlot_taken, ha, if_pos rfl] at hstep
    obtain ⟨hvalid, haddr, hdata, hdone⟩ := hview hstep
    have hlog : l.update s i = ⟨true, i, [], false⟩ := by simp [PushLog.update, hr, hb, ha]
    rw [hlog]
    refine ⟨fun _ => ⟨rfl, haddr, hdata, ?_⟩, fun hno => ?_⟩
    · rw [PushLog.given, hdone]
      rfl
    · rw [hvalid] at hno
      exact absurd hno (by decide)
  | false =>
    have hlog := push_update (l := l) hr hb ha
    have hgiven : (l.update s i).given (step s i) =
        l.given s ++ if (step s i).pushDone then [(step s i).pushError] else [] := by
      rw [hlog]
      rfl
    have hsame : (l.update s i).live = l.live ∧ (l.update s i).push = l.push := by
      rw [hlog]
      exact ⟨rfl, rfl⟩
    by_cases hend : s.state = .finish ∧ s.actPush = true
    · -- the push ends
      obtain ⟨hs, hp⟩ := hend
      have hv := hends hs hp
      have htenure := pushing_of_inv h (by rw [hs]; decide) hp
      have hstep : (step s i).puValid = false ∧ (step s i).pushDone = true := by
        rw [step_bus hr hb]
        simp [edge, hs, finish, hp]
      have hret : (l.update s i).retried = false := by
        rw [hlog, hp, hs]
        by_contra hno
        have := htenure.2.2 (by simpa using hno)
        rw [hs] at this
        exact absurd this (by decide)
      refine ⟨fun hyes => ?_, fun _ => ⟨hret, ?_⟩⟩
      · rw [hstep.1] at hyes
        exact absurd hyes (by decide)
      · rw [hsame.1, (h.held hv).1, if_pos rfl, hgiven, (h.held hv).2.2.2, hstep.2]
        exact ⟨_, rfl⟩
    · have hstep := pushSlot_step (i := i) hr hb fun hs => by
        by_contra hp
        exact hend ⟨hs, by simpa using hp⟩
      rw [pushSlot_taken, ha, if_neg Bool.false_ne_true] at hstep
      obtain ⟨hvalid, haddr, hdata, hdone⟩ := hview hstep
      rw [hdone, if_neg Bool.false_ne_true, List.append_nil] at hgiven
      refine ⟨fun hyes => ?_, fun hno => ?_⟩
      · rw [hvalid] at hyes
        rw [hsame.1, hsame.2, haddr, hdata, hgiven]
        exact h.held hyes
      · rw [hvalid] at hno
        refine ⟨push_free h hr hb ha (Or.inl hno), ?_⟩
        rw [hsame.1, hgiven, hdone]
        have hfree := (h.free hno).2
        split_ifs at hfree ⊢ with hl
        · exact hfree
        · rfl

/-- **The push over a clock edge.** -/
theorem pushInv_step {l : PushLog} (h : PushInv s l) : PushInv (step s i) (l.update s i) := by
  cases hr : i.rstN with
  | false =>
    have hstep : (step s i).state = .idle ∧ (step s i).puValid = false ∧
        (step s i).pushDone = false := by simp [step, hr, reset]
    have hlog : l.update s i = .start := by simp [PushLog.update, hr]
    rw [hlog]
    refine ⟨⟨fun hyes => ?_, fun _ => ⟨rfl, hstep.2.2⟩⟩, fun hgo => absurd hstep.1 hgo⟩
    rw [hstep.2.1] at hyes
    cases hyes
  | true =>
    cases hb : i.busCe with
    | false =>
      have hlog : l.update s i = l := by simp [PushLog.update, hr, hb]
      have hstep : step s i = { s with slow := true } := by simp [step, hr, hb]
      rw [hlog, hstep]
      exact ⟨⟨h.held, h.free⟩, h.tenure⟩
    | true =>
      have hslot := pushSlot_inv h hr hb
      refine ⟨hslot, fun hgo => ?_⟩
      have hquiet : s.puValid = true → pushAccept s i = false := fun hv => by
        simp [pushAccept, pushReady, hv]
      have hpush : s.puValid = true → (l.update s i).push.pushAddr = s.puAddr := fun hv => by
        rw [push_update hr hb (hquiet hv)]
        exact (h.held hv).2.1.symm
      by_cases hs : s.state = .idle
      · obtain ⟨hact, hload⟩ := idle_goes hr hb hs hgo
        rw [hact]
        cases hv : s.puValid with
        | false =>
          rw [if_neg Bool.false_ne_true]
          cases ha : pushAccept s i with
          | true => simp [PushLog.update, hr, hb, ha]
          | false => exact push_free h hr hb ha (Or.inl hv)
        | true =>
          obtain ⟨hstate, hpins⟩ := hload hv
          have hkept : (step s i).puValid = true := by
            have hview := pushSlot_step (i := i) hr hb fun hf => by
              rw [hs] at hf
              cases hf
            rw [pushSlot_taken, hquiet hv, if_neg Bool.false_ne_true, hv] at hview
            exact congrArg Prod.fst hview
          rw [if_pos rfl]
          refine ⟨hkept, ?_, fun _ => Or.inr (Or.inl hstate)⟩
          rw [hpins, pushAttributes, hpush hv]
      · obtain ⟨hact, hpins⟩ := curAttributes_step hr hb hs
        rw [hact]
        cases hp : s.actPush with
        | false =>
          rw [if_neg Bool.false_ne_true]
          cases ha : pushAccept s i with
          | true => simp [PushLog.update, hr, hb, ha]
          | false => exact push_free h hr hb ha (Or.inr ⟨hs, hp⟩)
        | true =>
          rw [if_pos rfl]
          obtain ⟨hv, hattr, hretry⟩ := pushing_of_inv h hs hp
          have hnot : s.state ≠ .finish := fun hf => hgo (by simp [step_bus hr hb, edge, hf])
          have hkept : (step s i).puValid = true := by
            have hview := pushSlot_step (i := i) hr hb fun hf => absurd hf hnot
            rw [pushSlot_taken, hquiet hv, if_neg Bool.false_ne_true, hv] at hview
            exact congrArg Prod.fst hview
          have hsame : (l.update s i).push = l.push := by rw [push_update hr hb (hquiet hv)]
          refine ⟨hkept, ?_, fun hret => ?_⟩
          · rw [hpins, hattr, hsame]
          · rw [push_update hr hb (hquiet hv), hp] at hret
            rw [step_bus hr hb]
            by_cases hsample : s.state = .addrRetrySample
            · have hartry : i.pins.artryN = false := by simpa [hsample] using hret
              simp [edge, hsample, hartry]
            · by_cases htransfer : s.state = .addrTransfer
              · simp [htransfer] at hret
              · have hold : l.retried = true := by simpa [hsample, htransfer] using hret
                rcases hretry hold with hst | hst | hst
                · exact absurd (by simp [step_bus hr hb, edge, hst]) hgo
                · cases hgrant : i.pins.granted <;> simp [edge, hst, hgrant]
                · exact absurd hst htransfer

end Step

end Inv

/-! ## Over a run -/

/-- What the last request and the last push accepted have been given. -/
structure Delivers (s : State) (i : Input) (l : Log) (p : PushLog) : Prop where
  none : l.live = false → s.rqValid = false ∧ s.rdValid = false ∧ s.wrDone = false
  /-- A request under way has been given its standing beats when it is a burst, and nothing
  when it is not. -/
  beats : l.live = true → s.rqValid = true → l.written s = [] ∧
    l.given s = if l.req.reqKind = kReadBurst then well (standing l.edges) else []
  complete : l.live = true → s.rqValid = false → Complete l s
  push : p.live = true → if s.puValid then p.given s = [] else ∃ e, p.given s = [e]
  pushNone : p.live = false → s.puValid = false ∧ s.pushDone = false
  /-- Every address tenure has the attributes of what it is for, and every beat its data. -/
  pins : addrOwned s i = true → (out s i).attributes =
    if s.actPush then pushAttributes p.push else attributes l.req l.part
  data : (out s i).dOe = true → (out s i).d =
    if s.actPush then lineBeat p.push.pushData s.beat else writeData l.req s.beat
  /-- Once retried it is kept, and asks for the bus again. -/
  retried : l.live = true → l.retried = true → s.rqValid = true ∧ (s.state = .idle ∨
    s.actPush = true ∨ s.state = .retryGap ∨ s.state = .addrRequest ∨ s.state = .addrTransfer)
  pushRetried : p.retried = true → s.puValid = true ∧ (s.state = .idle ∨
    s.state = .retryGap ∨ s.state = .addrRequest ∨ s.state = .addrTransfer)

section Runs

variable {s : State} {l : Log} {p : PushLog}

/-- The tenure of a request. -/
theorem active_of_inv (h : Inv s l) (hs : s.state ≠ .idle) (hp : s.actPush = false) :
    s.state.Active s l := by
  rwa [Inv, if_neg hs, hp, if_neg Bool.false_ne_true] at h

/-- A tenure of a request is of one that has not ended. -/
theorem open_of_inv (h : Inv s l) (hs : s.state ≠ .idle) (hp : s.actPush = false) :
    Open s l ∧ l.given s = if l.req.reqKind = kReadBurst then well (standing l.edges) else [] := by
  have hwait : Waiting s l →
      l.given s = if l.req.reqKind = kReadBurst then well (standing l.edges) else [] := by
    intro hw
    rw [hw.given, hw.edges]
    split_ifs <;> rfl
  have hact := active_of_inv h hs hp
  cases hst : s.state with
  | idle => exact absurd hst hs
  | addrRequest | retryGap | addrTransfer =>
    rw [hst] at hact
    exact ⟨hact.toOpen, hwait hact.toWaiting⟩
  | addrWait | addrRetrySample | dataRequest | addrAbort =>
    rw [hst] at hact
    exact ⟨hact.1.toOpen, hwait hact.1.toWaiting⟩
  | writeBeat =>
    rw [hst] at hact
    exact ⟨hact.1.toOpen, hwait hact.1⟩
  | readWait | readConfirm | readReplace =>
    rw [hst] at hact
    exact ⟨hact.toOpen, hact.given⟩
  | dataRelease =>
    rw [hst] at hact
    exact ⟨hact.1.toOpen, hact.1.given⟩
  | finish =>
    rw [hst] at hact
    exact ⟨hact.toOpen, hact.given⟩

/-- With no tenure of a request, its slot rests. -/
theorem resting_of_inv (h : Inv s l) (hs : s.state = .idle ∨ s.actPush = true) : Resting s l := by
  unfold Inv at h
  split_ifs at h with hidle hp
  · exact h
  · exact h.1
  · rcases hs with hs | hs
    · exact absurd hs hidle
    · exact absurd hs hp

/-- A request slot with no request. -/
theorem resting_of_free (h : Inv s l) (hv : s.rqValid = false) :
    if l.live then Complete l s ∧ l.retried = false else s.rdValid = false ∧ s.wrDone = false := by
  have hrest : Resting s l := by
    by_cases hs : s.state = .idle
    · exact resting_of_inv h (Or.inl hs)
    · cases hp : s.actPush with
      | true => exact resting_of_inv h (Or.inr hp)
      | false =>
        rw [(open_of_inv h hs hp).1.valid] at hv
        cases hv
  rwa [Resting, hv, if_neg Bool.false_ne_true] at hrest

/-- A request that is held has not ended. -/
theorem open_of_valid (h : Inv s l) (hv : s.rqValid = true) :
    Open s l ∧ l.given s = if l.req.reqKind = kReadBurst then well (standing l.edges) else [] := by
  by_cases hs : s.state = .idle ∨ s.actPush = true
  · have hrest := resting_of_inv h hs
    rw [Resting, if_pos hv] at hrest
    refine ⟨hrest.toOpen, ?_⟩
    rw [hrest.given, hrest.edges]
    split_ifs <;> rfl
  · rw [not_or, Bool.not_eq_true] at hs
    exact open_of_inv h hs.1 hs.2

theorem pins_of_inv (h : Inv s l) (hpush : PushInv s p) (i : Input) (ho : addrOwned s i = true) :
    (out s i).attributes = if s.actPush then pushAttributes p.push else attributes l.req l.part := by
  have hstate : s.state = .addrTransfer ∨ s.state = .addrWait ∨ s.state = .addrRetrySample ∨
      s.state = .addrAbort := by
    simp only [addrOwned, Bool.and_eq_true, Bool.or_eq_true, decide_eq_true_eq] at ho
    tauto
  have hs : s.state ≠ .idle := by rcases hstate with h | h | h | h <;> rw [h] <;> decide
  show curAttributes s = _
  cases hp : s.actPush with
  | true => exact (pushing_of_inv hpush hs hp).2.1
  | false =>
    have hact := active_of_inv h hs hp
    rcases hstate with hst | hst | hst | hst <;> rw [hst] at hact
    · exact hact.pins
    · exact hact.1.pins
    · exact hact.1.pins
    · exact hact.1.pins

theorem data_of_inv (h : Inv s l) (hpush : PushInv s p) (i : Input) (ho : (out s i).dOe = true) :
    (out s i).d = if s.actPush then lineBeat p.push.pushData s.beat else writeData l.req s.beat := by
  have hst : s.state = .writeBeat := by
    simp only [out, Bool.and_eq_true, decide_eq_true_eq] at ho
    exact ho.2
  have hs : s.state ≠ .idle := by rw [hst]; decide
  rw [out]
  cases hp : s.actPush with
  | true => rw [if_pos rfl, if_pos rfl, (hpush.held (pushing_of_inv hpush hs hp).1).2.2.1]
  | false =>
    have hq := (open_of_inv h hs hp).1.holds
    rw [if_neg Bool.false_ne_true, if_neg Bool.false_ne_true, hq.kind, hq.data, writeData]

theorem retried_of_inv (h : Inv s l) (hl : l.live = true) (hret : l.retried = true) :
    s.rqValid = true ∧ (s.state = .idle ∨ s.actPush = true ∨ s.state = .retryGap ∨
      s.state = .addrRequest ∨ s.state = .addrTransfer) := by
  have hno : l.retried ≠ false := by simp [hret]
  constructor
  · by_contra hv
    have hrest := resting_of_free h (by simpa using hv)
    rw [if_pos hl] at hrest
    exact hno hrest.2
  · by_contra hgoes
    rw [not_or, not_or, Bool.not_eq_true] at hgoes
    obtain ⟨hs, hp, hother⟩ := hgoes
    have hact := active_of_inv h hs hp
    cases hst : s.state with
    | idle => exact hs hst
    | retryGap | addrRequest | addrTransfer =>
      rw [hst] at hother
      exact hother (by decide)
    | addrWait | addrRetrySample =>
      rw [hst] at hact
      exact hno hact.2
    | dataRequest | addrAbort =>
      rw [hst] at hact
      exact hno hact.2.1
    | writeBeat =>
      rw [hst] at hact
      exact hno hact.2.2.1
    | readWait | readConfirm | readReplace =>
      rw [hst] at hact
      exact hno hact.retried
    | dataRelease =>
      rw [hst] at hact
      exact hno hact.1.retried
    | finish =>
      rw [hst] at hact
      exact hno hact.retried

theorem delivers_of_inv (h : Inv s l) (hpush : PushInv s p) (i : Input) : Delivers s i l p where
  none hl := by
    cases hv : s.rqValid with
    | true =>
      rw [(open_of_valid h hv).1.live] at hl
      cases hl
    | false =>
      have hrest := resting_of_free h hv
      rw [hl, if_neg Bool.false_ne_true] at hrest
      exact ⟨rfl, hrest⟩
  beats _ hv := ⟨(open_of_valid h hv).1.written, (open_of_valid h hv).2⟩
  complete hl hv := by
    have hrest := resting_of_free h hv
    rw [if_pos hl] at hrest
    exact hrest.1
  push hl := by
    cases hv : s.puValid with
    | true => exact (hpush.held hv).2.2.2
    | false =>
      have hfree := (hpush.free hv).2
      rwa [if_pos hl] at hfree
  pushNone hl := by
    cases hv : s.puValid with
    | true =>
      rw [(hpush.held hv).1] at hl
      cases hl
    | false =>
      have hfree := (hpush.free hv).2
      rw [hl, if_neg Bool.false_ne_true] at hfree
      exact ⟨rfl, hfree⟩
  pins := pins_of_inv h hpush i
  data := data_of_inv h hpush i
  retried := retried_of_inv h
  pushRetried hret := by
    have hno : p.retried ≠ false := by simp [hret]
    refine ⟨?_, ?_⟩
    · by_contra hv
      exact hno (hpush.free (by simpa using hv)).1
    · by_cases hs : s.state = .idle
      · exact Or.inl hs
      · have ht := hpush.tenure hs
        split_ifs at ht with hp
        · exact Or.inr (ht.2.2 hret)
        · exact absurd ht hno

/-- The log of a run. -/
def log (r : Run machine) (n : ℕ) : Log := r.history .start (fun l s i => l.update s i) n

/-- The log of its pushes. -/
def pushLog (r : Run machine) (n : ℕ) : PushLog :=
  r.history .start (fun l s i => l.update s i) n

theorem inv_run (r : Run machine) (n : ℕ) : Inv (r.state n) (log r n) :=
  Run.invariant_history (A := fun _ _ => True) (I := Inv)
    (by rintro s ⟨s₀, rfl⟩; exact ⟨rfl, rfl⟩) (fun _ _ _ h _ => inv_step h) fun _ _ => trivial

theorem pushInv_run (r : Run machine) (n : ℕ) : PushInv (r.state n) (pushLog r n) :=
  Run.invariant_history (A := fun _ _ => True) (I := PushInv)
    (by rintro s ⟨s₀, rfl⟩; exact ⟨⟨nofun, fun _ => ⟨rfl, rfl⟩⟩, fun hgo => absurd rfl hgo⟩)
    (fun _ _ _ h _ => pushInv_step h) fun _ _ => trivial

/-- **A burst is its standing beats.** -/
theorem delivers_run (r : Run machine) (n : ℕ) :
    Delivers (r.state n) (r.input n) (log r n) (pushLog r n) :=
  delivers_of_inv (inv_run r n) (pushInv_run r n) _

/-! ### A beat that an error takes with it -/

/-- A burst read, granted at once, whose first beat is followed by TEA. -/
def abortedInput : ℕ → Input
  | 0 => { busCe := true, reqValid := true }
  | 2 => { busCe := true, pins := { bgN := false } }
  | 4 => { busCe := true, pins := { aackN := false } }
  | 6 => { busCe := true, pins := { dbgN := false } }
  | 7 => { busCe := true, pins := { taN := false }, d := 5 }
  | 8 => { busCe := true, pins := { teaN := false } }
  | _ => { busCe := true }

/-- Registers before the first reset. -/
def powerUp : State where
  state := .idle
  rqValid := false
  rqKind := 0
  rqTt := 0
  rqAddr := 0
  rqWimg := 0
  rqGbl := false
  rqCse := 0
  rqData := 0
  rqPlan := ⟨false, false, 0, 0, 0⟩
  rqPart := false
  rqMerge := 0
  puValid := false
  puAddr := 0
  puData := 0
  actPush := false
  curA := 0
  curTt := 0
  curTbstN := true
  curTsiz := 0
  curCiN := true
  curWtN := true
  curGblN := true
  curCse := 0
  beat := 0
  lastBeat := 0
  err := false
  provisional := 0
  addrReleasePending := false
  dataReleasePending := false
  finalReleaseStarted := false
  releaseOeCycle := false
  rdValid := false
  rdError := false
  rdData := 0
  fin := 0
  wrDone := false
  wrError := false
  pushDone := false
  pushError := false
  protocolError := false
  reqAcked := false
  idle := true
  slow := false

/-- The run of these inputs. -/
def abortedRun : Run machine where
  start := reset powerUp
  initial := ⟨powerUp, rfl⟩
  input := abortedInput

/-- A beat that DRTRY does not cancel is not always given. -/
theorem uncancelled_beat_lost : ¬ ∀ (r : Run machine) (n : ℕ), (log r n).live = true →
    (log r n).req.reqKind = kReadBurst → (r.state n).rqValid = false →
    ∀ w ∈ standing ((log r n).edges.map fun a => { a with abort := false }),
      (false, w) ∈ (log r n).given (r.state n) := by
  intro h
  exact absurd (h abortedRun 11 (by decide +kernel) (by decide +kernel) (by decide +kernel) 5
    (by decide +kernel)) (by decide +kernel)

end Runs

end CacheMaster

/-- **The three masters deliver the standing beats.**  The beats of the data cache's bursts come
in the order of the bus, those of a line go to their slots from the critical doubleword on, and
a single-beat read is its one standing beat. -/
theorem reads_deliver :
    (∀ (r : Clocked.Run CacheMaster.machine) (n : ℕ), CacheMaster.Delivers (r.state n) (r.input n)
      (CacheMaster.log r n) (CacheMaster.pushLog r n)) ∧
    (∀ (r : Clocked.Run LineRead.machine) (n : ℕ),
      LineRead.Delivers (r.state n) (r.input n) (LineRead.log r n)) ∧
    ∀ (r : Clocked.Run Scalar.machine) (n : ℕ),
      Scalar.Delivers (r.state n) (r.input n) (Scalar.log r n) :=
  ⟨CacheMaster.delivers_run, LineRead.delivers_run, Scalar.delivers_run⟩

end Bus
end SloPPC603
