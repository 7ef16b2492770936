import SloPPC603.Special.Held

/-!
# The lane sequencer, the timer and the watchdog

* `Phase`, `Lane`, `Lane.next` — the states of the special lane and the edge between them:
  `ppc_special.sv` 1304–1500.
* `Timer`, `Watchdog` — `ppc_timer.sv` and `ppc_watchdog.sv`.
-/

namespace SloPPC603
namespace Special

open Exceptions (msrMe)

/-! ## The lane -/

/-- `state_t`. -/
inductive Phase
  | idle | exec | hold | memPrep | memOffer | memWait | memResult | memDrain | exceptionResult
  | contextDrain | contextInstall | contextRedirect | contextAbort | interruptCommit
  | timerResult | exceptionHalt | mmuOffer | mmuWait | mmuResult | mmuAbort | mmuAck
  | mmuRedirect | branchRedirect | icbi | checkstop | icacheCtl | fpuIssue | fpuWait | fpuMemRsp
  | fpuStore
  deriving DecidableEq

/-- The state that a dispatched operation enters. -/
inductive Entry
  | memWait | memOffer | memPrep | icbi | fpuWait | fpuIssue | contextDrain | exec
  deriving DecidableEq

def Entry.phase : Entry → Phase
  | .memWait => .memWait
  | .memOffer => .memOffer
  | .memPrep => .memPrep
  | .icbi => .icbi
  | .fpuWait => .fpuWait
  | .fpuIssue => .fpuIssue
  | .contextDrain => .contextDrain
  | .exec => .exec

/-- `state_q`, `fence_q` and `killed_q`. -/
structure Lane where
  phase : Phase := .idle
  fence : Bool := false
  killed : Bool := false

/-- The handshakes and outcomes of one cycle. -/
structure LaneInput where
  cancel : Bool := false
  dispatchValid : Bool := false
  dispatchOverlap : Bool := false
  entry : Entry := .exec
  /-- `dispatch_fenced`. -/
  fenced : Bool := false
  memReleased : Bool := false
  resultReady : Bool := false
  resultFire : Bool := false
  requestFire : Bool := false
  responseFire : Bool := false
  memKillable : Bool := false
  /-- A `S_MEM_PREP` that needs no access, or may not make one. -/
  memSkipped : Bool := false
  externalDenied : Bool := false
  /-- `store_authorize_i` with the store at the head of the queue. -/
  storeAuthorized : Bool := false
  beatContinue : Bool := false
  memResponseFence : Bool := false
  fpuAccess : Bool := false
  mmuReqReady : Bool := false
  mmuRspValid : Bool := false
  mmuAckValid : Bool := false
  mmuReqWrite : Bool := false
  /-- `mmu_idle && !mmu_response_pending_q`. -/
  mmuIdle : Bool := false
  frontendQuiescent : Bool := false
  memoryQuiescent : Bool := false
  redirectAccepted : Bool := false
  contextReady : Bool := false
  timerReadExecute : Bool := false
  branchRedirectTaken : Bool := false
  icacheCtlReady : Bool := false
  icbiReqReady : Bool := false
  fpuIssueReady : Bool := false
  fpuMemReqFire : Bool := false
  fpuMemReqWrite : Bool := false
  fpuResultTake : Bool := false
  fpuException : Bool := false
  fpuStore : Bool := false
  fpuMemRspReady : Bool := false
  fpuCommitReady : Bool := false
  /-- `late_exception_event`. -/
  late : Bool := false

/-- Fetch and memory have drained. -/
def LaneInput.quiescent (l : LaneInput) : Bool := l.frontendQuiescent && l.memoryQuiescent

/-- What the cycle's commit and its selections say to the sequencer. -/
structure Commit where
  accept : Bool
  commitMatch : Bool
  interrupt : Bool
  mcpSelected : Bool
  machineCheckEnable : Bool
  eventValid : Bool
  eventReady : Bool
  checkstopCommit : Bool
  mmuOperation : Bool
  tlbFillOperation : Bool
  mmuError : Bool
  icacheChange : Bool
  contextInstall : Bool
  resultValid : Bool
  resultSupported : Bool

namespace Lane

variable (q : Lane) (l : LaneInput) (c : Commit)

/-- `dispatch_fire`. -/
def dispatchFire : Bool :=
  l.dispatchValid && !l.cancel &&
    (q.phase = .idle || (q.phase = .memResult && l.memReleased && l.resultReady &&
      l.dispatchOverlap))

/-- `step_run`. -/
def stepRun : Bool := !l.cancel && q.phase ≠ .idle

/-- The result slot's acceptance: the redirect waits for a late event's drain. -/
def resultReady : Bool := q.phase = .exceptionResult && (!l.late || l.quiescent)

/-- A recovery cancels the lane. -/
def cancelled : Lane :=
  match q.phase with
  | .mmuOffer => { q with killed := true, phase := if l.mmuReqReady then .mmuAbort else .mmuOffer }
  | .mmuWait => { q with phase := .mmuAbort }
  | .mmuResult | .hold =>
    { q with phase := if c.mmuOperation then .mmuAbort else if q.fence then .contextAbort else .idle }
  | .mmuAbort => if l.mmuIdle then { q with fence := false, phase := .idle } else q
  | .memOffer =>
    if l.memKillable then
      { q with killed := true, phase := if l.requestFire then .memDrain else .memOffer }
    else q
  | .memWait =>
    if l.memKillable then
      { q with killed := true, phase := if l.responseFire then .idle else .memDrain }
    else q
  | .memDrain => if l.responseFire then { q with phase := .idle } else q
  | .icbi => { q with killed := true, phase := if l.icbiReqReady then .idle else .icbi }
  | .icacheCtl => if l.icacheCtlReady then { q with phase := .contextAbort } else q
  | .exceptionHalt | .checkstop => q
  | _ => { q with phase := if q.fence then .contextAbort else .idle }

/-- What the commit of the held instruction leads to. -/
def committed : Lane :=
  if c.tlbFillOperation && c.mmuError then { q with phase := .mmuAbort }
  else if c.mmuOperation && !c.mmuError then
    { q with phase := if l.mmuReqWrite then .mmuAck else .mmuRedirect }
  else if c.checkstopCommit then { q with fence := true, phase := .checkstop }
  else if c.eventValid then { q with phase := .exceptionResult }
  else if c.icacheChange then { q with phase := .icacheCtl }
  else if c.contextInstall then { q with phase := .contextInstall }
  else { q with fence := false, phase := if l.branchRedirectTaken then .branchRedirect else .idle }

/-- The held operation runs its state. -/
def run : Lane :=
  match q.phase with
  | .contextDrain =>
    if l.quiescent then
      { q with phase :=
          if c.interrupt then .interruptCommit else if c.mmuOperation then .mmuOffer else .exec }
    else q
  | .mmuOffer =>
    if l.mmuReqReady then { q with phase := if q.killed then .mmuAbort else .mmuWait } else q
  | .mmuWait => if l.mmuRspValid then { q with phase := .mmuResult } else q
  | .mmuResult => if l.resultFire then { q with phase := .hold } else q
  | .mmuAbort => if l.mmuIdle then { q with fence := false, phase := .idle } else q
  | .mmuAck => if l.mmuAckValid then { q with phase := .mmuRedirect } else q
  | .mmuRedirect => if l.redirectAccepted then { q with fence := false, phase := .idle } else q
  | .branchRedirect => if l.redirectAccepted then { q with phase := .idle } else q
  | .interruptCommit =>
    if c.mcpSelected && !c.machineCheckEnable then { q with phase := .checkstop }
    else if c.eventReady then { q with phase := .exceptionResult }
    else q
  | .contextAbort => if l.quiescent then { q with fence := false, phase := .idle } else q
  | .contextInstall => if l.contextReady then { q with phase := .contextRedirect } else q
  | .contextRedirect => if l.redirectAccepted then { q with fence := false, phase := .idle } else q
  | .exec =>
    if l.timerReadExecute then { q with phase := .timerResult }
    else if l.resultFire then { q with phase := .hold }
    else q
  | .timerResult => if l.resultFire then { q with phase := .hold } else q
  | .hold => if c.commitMatch then committed q l c else q
  | .icacheCtl => if l.icacheCtlReady then { q with phase := .contextInstall } else q
  | .memPrep =>
    if l.externalDenied then { q with fence := true, phase := .memResult }
    else if l.memSkipped then { q with phase := .memResult }
    else if l.memKillable || l.storeAuthorized then { q with phase := .memOffer }
    else q
  | .memOffer =>
    if l.requestFire then { q with phase := if q.killed then .memDrain else .memWait } else q
  | .memWait =>
    if !l.responseFire then q
    else if q.killed then { q with phase := .idle }
    else if l.beatContinue then { q with phase := .memOffer }
    else { q with
      fence := q.fence || l.memResponseFence
      phase := if l.fpuAccess then .fpuMemRsp else .memResult }
  | .fpuIssue => if l.fpuIssueReady then { q with phase := .fpuWait } else q
  | .fpuWait | .fpuMemRsp =>
    if l.fpuMemReqFire then
      { q with phase := if l.fpuMemReqWrite then .fpuMemRsp else .memOffer }
    else if l.fpuResultTake then
      { q with
        fence := q.fence || l.fpuException
        phase := if l.fpuStore && !l.fpuException then .fpuStore else .memResult }
    else if q.phase = .fpuMemRsp && l.fpuMemRspReady then { q with phase := .fpuWait }
    else q
  | .fpuStore => if l.fpuCommitReady then { q with phase := .memOffer } else q
  | .memResult =>
    if l.resultFire then { q with phase := if l.memReleased then .idle else .hold } else q
  | .memDrain => if l.responseFire then { q with phase := .idle } else q
  | .icbi =>
    if l.icbiReqReady then { q with phase := if q.killed then .idle else .exec } else q
  | .exceptionResult =>
    if c.resultValid && resultReady q l then
      if !c.resultSupported then { q with fence := true, phase := .exceptionHalt }
      else { q with phase := .contextInstall }
    else q
  | .idle | .exceptionHalt | .checkstop => q

/-- The clock edge: `state_d`, `fence_d` and `killed_d`. -/
def next : Lane :=
  if c.accept then { q with fence := true, phase := .contextDrain }
  else if dispatchFire q l then { phase := l.entry.phase, fence := l.fenced, killed := false }
  else if l.cancel then cancelled q l c
  else run q l c

end Lane

/-! ## The timer -/

/-- The registers of `ppc_timer`. -/
structure Timer where
  timebase : BitVec 64 := 0
  decrementer : BitVec 32 := 0xffffffff
  pending : Bool := false

/-- `decrementer_next`. -/
def Timer.decrementerNext (t : Timer) (tick : Bool) (write : Option (BitVec 10 × BitVec 32)) :
    BitVec 32 :=
  match write with
  | some (spr, value) =>
    if spr = 22 then value else if tick then t.decrementer - 1 else t.decrementer
  | none => if tick then t.decrementer - 1 else t.decrementer

/-- The edge of `ppc_timer`: a tick, a write to TB or DEC and an accepted decrementer. -/
def Timer.step (t : Timer) (tick timebaseEnable : Bool) (write : Option (BitVec 10 × BitVec 32))
    (accept : Bool) : Timer :=
  let decrementer := t.decrementerNext tick write
  let counted := if tick && timebaseEnable then t.timebase + 1 else t.timebase
  { timebase :=
      match write with
      | some (spr, value) =>
        if spr = 284 then t.timebase.extractLsb' 32 32 ++ value
        else if spr = 285 then value ++ t.timebase.extractLsb' 0 32
        else counted
      | none => counted
    decrementer := decrementer
    -- Acceptance coalesces a new transition on the same edge.
    pending := !accept && (t.pending || (!t.decrementer.getLsbD 31 && decrementer.getLsbD 31)) }

/-! ## The watchdog -/

/-- The registers of `ppc_watchdog`. -/
structure Watchdog where
  tcr : BitVec 32 := 0
  interrupt : Bool := false
  reset : Bool := false
  reseto : Bool := false
  outstanding : Bool := false

def tcrCre : ℕ := 29
def tcrL2e : ℕ := 28
def tcrNwe : ℕ := 27
def tcrWie : ℕ := 26
def tcrSlt : ℕ := 25

/-- `TCR_WMASK`. -/
def tcrWmask : BitVec 32 := 0xfe000000

/-- `period_end`. -/
def Watchdog.periodEnd (w : Watchdog) (increment : Bool) (timebase : BitVec 26) : Bool :=
  let interval := w.tcr.extractLsb' 30 2
  increment && timebase.extractLsb' 0 23 = BitVec.allOnes 23 &&
    (interval = 0 || (timebase.getLsbD 23 &&
      (interval = 1 || (timebase.getLsbD 24 && (interval = 2 || timebase.getLsbD 25)))))

/-- What the end of a period does. -/
def Watchdog.period (w : Watchdog) : Watchdog :=
  if w.reseto then { w with reseto := false, outstanding := false }
  else if w.tcr.getLsbD tcrWie then
    if !w.outstanding || w.tcr.getLsbD tcrNwe then
      { w with
        interrupt := true
        outstanding := true
        tcr := Words.setBit w.tcr tcrNwe false }
    else if w.tcr.getLsbD tcrL2e then
      { w with
        tcr := Words.setBit w.tcr tcrSlt true
        reseto := true
        reset := w.reset || w.tcr.getLsbD tcrCre }
    else w
  else w

/-- The edge of `ppc_watchdog`. -/
def Watchdog.step (w : Watchdog) (increment : Bool) (timebase : BitVec 26)
    (tcrWrite : Option (BitVec 32)) (interruptAccept resetAccept : Bool) : Watchdog :=
  let accepted :=
    { w with interrupt := w.interrupt && !interruptAccept, reset := w.reset && !resetAccept }
  let ended := if w.periodEnd increment timebase then accepted.period else accepted
  { ended with tcr := (tcrWrite.map (· &&& tcrWmask)).getD ended.tcr }

/-! ## What no edge takes back -/

theorem Timer.pending_step {t : Timer} {tick enable : Bool}
    {write : Option (BitVec 10 × BitVec 32)} (h : t.pending = true) :
    (t.step tick enable write false).pending = true := by
  simp [Timer.step, h]

theorem Watchdog.interrupt_period {w : Watchdog} (h : w.interrupt = true) :
    w.period.interrupt = true := by
  unfold Watchdog.period
  split_ifs <;> first | exact h | rfl

theorem Watchdog.reset_period {w : Watchdog} (h : w.reset = true) : w.period.reset = true := by
  unfold Watchdog.period
  split_ifs <;> simp [h]

theorem Watchdog.interrupt_step {w : Watchdog} {increment resetAccept : Bool}
    {timebase : BitVec 26} {write : Option (BitVec 32)} (h : w.interrupt = true) :
    (w.step increment timebase write false resetAccept).interrupt = true := by
  simp only [Watchdog.step]
  split_ifs
  · exact Watchdog.interrupt_period (by simpa using h)
  · simpa using h

theorem Watchdog.reset_step {w : Watchdog} {increment interruptAccept : Bool}
    {timebase : BitVec 26} {write : Option (BitVec 32)} (h : w.reset = true) :
    (w.step increment timebase write interruptAccept false).reset = true := by
  simp only [Watchdog.step]
  split_ifs
  · exact Watchdog.reset_period (by simpa using h)
  · simpa using h

end Special
end SloPPC603
