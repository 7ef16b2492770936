import SloPPC603.Dcache.Operation

/-!
# One answer for each request

An answer can come from a fast hit, the lookup, the first beat of a fill, a single read,
the end of the plan or an error.  `owes` says when one is still due, and on every edge an
answer taken and a request accepted balance it, whatever the bus and the snoops do.

* `owes_step` — the balance of one edge.
* `Log`, `accepted_run` — the requests answered are the requests accepted, in order, but
  for the one in progress.
* `answer_kept` — an answer in the response registers is the one the processor takes.
-/

namespace SloPPC603
namespace Dcache

open Clocked

variable {cfg : Config} {s : State} {i : Input}

/-! ## What is owed -/

/-- An answer waits to be taken, or the operation in progress has yet to give one. -/
def owes (s : State) : Bool := s.rsp.valid || (s.state ≠ .idle && !s.rspSent)

theorem rspValid_of_ne_lookup (h : s.state ≠ .lookup) : rspValid cfg s i = s.rsp.valid := by
  simp [rspValid, lkFast, lkFastSt, h]

theorem lkFast_of_not_go (h : lkGo cfg s i = false) :
    lkFast cfg s i = false ∧ lkFastSt cfg s i = false := by
  constructor
  · cases hf : lkFast cfg s i with
    | false => rfl
    | true => simp [(lkFast_spec hf).1] at h
  · cases hf : lkFastSt cfg s i with
    | false => rfl
    | true => simp [(lkFastSt_spec hf).1] at h

/-- A lookup is answered on its own edge when a fast hit is taken. -/
theorem rspTaken_lookup (hr : ResponseInv s) (hst : s.state = .lookup) :
    rspTaken cfg s i = (lkFastDone cfg s i || lkFastStDone cfg s i) := by
  simp [rspTaken, rspValid, (hr.lookup hst).1, lkFastDone, lkFastStDone, Bool.and_or_distrib_right]

theorem firstStep_ne_idle {p : Plan} (h : p ≠ .none) : firstStep p ≠ .idle := by
  obtain ⟨cob, addr, fill, sread, zero, store, swrite, install⟩ := p
  unfold firstStep
  split_ifs <;> simp_all [Plan.none]

/-- The plan of a lookup that goes on has a step. -/
theorem plan_of_lookup (hans : lkAnswers cfg s i = false) (hread : (lk cfg s i).read = false)
    (hsync : (lk cfg s i).sync = false) : firstStep (lk cfg s i).plan ≠ .idle := by
  apply firstStep_ne_idle
  intro hn
  simp [lkAnswers, hn, hread, hsync] at hans

/-! ## The edge, by what the operation has done -/

/-- With no operation in progress, the answer waits and a request needs it gone. -/
theorem owes_idle (hst : s.state = .idle) :
    (owes (running cfg s i)).toNat + (rspTaken cfg s i).toNat =
      (owes s).toNat + (reqAccept cfg s i).toNat := by
  have hd : stepDone s i = false := by simp [stepDone, hst]
  have hrsp : (running cfg s i).rsp = rspCleared s i := by
    show nextRsp cfg s i = _
    simp [nextRsp, stepAnswers, hd, rspFsm, hst]
  have hstate : (running cfg s i).state = if reqAccept cfg s i then .lookup else .idle := by
    show nextState cfg s i = _
    simp [nextState, hd, hst]
  have hsent : (running cfg s i).rspSent = if reqAccept cfg s i then false else s.rspSent := by
    show nextRspSent cfg s i = _
    simp [nextRspSent, hst]
  have hfree : reqAccept cfg s i = true → s.rsp.valid = false := by
    intro hacc
    simp only [reqAccept, reqReady, lkFastDone, lkFast, lkFastStNext, lkFastStDone, lkFastSt, hst,
      Bool.and_eq_true] at hacc
    simpa using hacc.2.2
  simp only [owes, hrsp, hstate, hsent, rspTaken,
    @rspValid_of_ne_lookup cfg s i (by simp [hst]), hst]
  cases hacc : reqAccept cfg s i with
  | true => simp [rspCleared, hfree hacc]
  | false => cases hv : s.rsp.valid <;> cases hy : i.rspReady <;> simp [rspCleared, hv, hy]

/-- A lookup owes its answer until it has put one in the registers or a fast hit is taken. -/
theorem owes_lookup (hr : ResponseInv s) (hst : s.state = .lookup) :
    (owes (running cfg s i)).toNat + (rspTaken cfg s i).toNat =
      (owes s).toNat + (reqAccept cfg s i).toNat := by
  obtain ⟨hv, hsent⟩ := hr.lookup hst
  have hd : stepDone s i = false := by simp [stepDone, hst]
  have howes : owes s = true := by simp [owes, hst, hsent]
  have hready : reqReady cfg s i = true → (lkFastDone cfg s i || lkFastStDone cfg s i) = true := by
    intro h
    simp only [reqReady, lkFastStNext, hst, Bool.and_eq_true, Bool.or_eq_true] at h ⊢
    simp only [reduceCtorEq, decide_false, Bool.false_eq_true, false_and, false_or] at h
    tauto
  have hrsp : (running cfg s i).rsp = rspFsm cfg s i := by
    show nextRsp cfg s i = _
    simp [nextRsp, stepAnswers, hd]
  have hstate : (running cfg s i).state = if lkGo cfg s i then afterLookup cfg s i else .lookup := by
    show nextState cfg s i = _
    simp [nextState, hd, hst]
  have hkeep : (running cfg s i).rspSent = false := by
    show nextRspSent cfg s i = false
    simp [nextRspSent, hst, hsent]
  rw [rspTaken_lookup hr hst, howes]
  simp only [owes, hrsp, hstate, hkeep]
  cases hgo : lkGo cfg s i with
  | false =>
    obtain ⟨hf, hfs⟩ := lkFast_of_not_go hgo
    have hacc : reqAccept cfg s i = false := by
      apply not_reqAccept_of_not_ready
      by_contra h
      simpa [lkFastDone, lkFastStDone, hf, hfs] using hready (Bool.not_eq_false _ ▸ h)
    simp [lkFastDone, lkFastStDone, hf, hfs, hacc]
  | true =>
    cases hfast : lkFastDone cfg s i || lkFastStDone cfg s i with
    | true =>
      have hans : lkAnswers cfg s i = false := by
        rcases Bool.or_eq_true_iff.1 hfast with h | h
        · simp only [lkFastDone, Bool.and_eq_true] at h
          exact (lkFast_spec h.1).2.1
        · simp only [lkFastStDone, Bool.and_eq_true] at h
          exact (lkFastSt_spec h.1).2.1
      have hc := @cleared_of_pending s i hv
      cases hacc : reqAccept cfg s i <;>
        simp [rspFsm, hst, hgo, hans, hfast, afterLookup, hacc, hc]
    | false =>
      have hacc : reqAccept cfg s i = false := by
        apply not_reqAccept_of_not_ready
        by_contra h
        simp [hready (Bool.not_eq_false _ ▸ h)] at hfast
      rw [hacc]
      -- the answer is in the registers, or the operation goes on
      have hnext : (rspFsm cfg s i).valid = true ∨ afterLookup cfg s i ≠ .idle := by
        cases hans : lkAnswers cfg s i with
        | true => exact Or.inl (by simp [rspFsm, hst, hgo, hans])
        | false =>
          cases hread : (lk cfg s i).read with
          | true =>
            cases hearly : s.earlyData with
            | true => exact Or.inl (by simp [rspFsm, hst, hgo, hans, hfast, hread, hearly])
            | false => exact Or.inr (by simp [afterLookup, hans, hfast, hread, hearly])
          | false =>
            cases hsync : (lk cfg s i).sync with
            | true => exact Or.inr (by simp [afterLookup, hans, hfast, hread, hsync])
            | false =>
              have hplan := plan_of_lookup hans hread hsync
              exact Or.inr (by simp [afterLookup, hans, hfast, hread, hsync, hplan])
      rcases hnext with h | h <;> simp [h]

/-- Inside a plan no request is taken, and only the registers answer. -/
theorem owes_of_phase {p : DcState} (hp : phaseOf s.state = some p) :
    reqAccept cfg s i = false ∧ rspTaken cfg s i = (s.rsp.valid && i.rspReady) := by
  refine ⟨reqAccept_of_phase hp, ?_⟩
  rw [rspTaken, rspValid_of_ne_lookup]
  intro h
  simp [h, phaseOf] at hp

/-- **An operation that has not answered** answers on the edge or goes on unanswered. -/
theorem owes_pending {p : DcState} (hp : phaseOf s.state = some p)
    (hsent : s.rspSent = false) : owes (running cfg s i) = true := by
  show ((nextRsp cfg s i).valid || (nextState cfg s i ≠ .idle && !nextRspSent cfg s i)) = true
  cases hd : stepDone s i with
  | true =>
    cases hread : decide (s.state = .sreadWait) with
    | true =>
      rw [decide_eq_true_eq] at hread
      have hv : i.busRdValid = true := by simpa [stepDone, hread] using hd
      simp [nextRsp, stepAnswers, hread, rspFsm, hv]
    | false =>
      rw [decide_eq_false_iff_not] at hread
      cases hn : decide (stateNext s = .idle) with
      | true =>
        rw [decide_eq_true_eq] at hn
        simp [nextRsp, stepAnswers, hd, hn, hsent, hread]
      | false =>
        rw [decide_eq_false_iff_not] at hn
        have hsame : nextRspSent cfg s i = false := by
          cases hst : s.state <;> simp [hst, phaseOf] at hp hread <;>
            simp [nextRspSent, hst, hsent]
          -- the last beat of a fill is not its first
          simp only [stepDone, hst, Bool.and_eq_true, decide_eq_true_eq] at hd
          have herr : i.busRdError = false := by
            have hb := hd.1
            simp only [fillBeat, Bool.and_eq_true, Bool.not_eq_true'] at hb
            exact hb.2
          simp [herr, hd.2]
        simp [nextState, hd, hn, hsame]
  | false =>
    by_cases hfill : s.state = .fillWait
    · cases herr : i.busRdValid && i.busRdError with
      | true => simp [nextRsp, stepAnswers, hd, rspFsm, hfill, herr, hsent]
      | false =>
        have hn : nextState cfg s i = .fillWait := by simp [nextState, hd, hfill, herr]
        cases hb : fillBeat s i && s.stepIdx = 0 && earlyRspOp s with
        | true => simp [nextRsp, stepAnswers, hd, rspFsm, hfill, herr, hb]
        | false => simp [hn, nextRspSent, hfill, herr, hb, hsent]
    · have hne : nextState cfg s i ≠ .idle := by
        rcases @phase_step cfg s i _ hp with ⟨hd', -⟩ | ⟨-, hn, -⟩ | ⟨-, hst, -⟩
        · simp [hd] at hd'
        · intro hidle
          simp [hidle, phaseOf] at hn
        · exact absurd hst hfill
      have hsame : nextRspSent cfg s i = false := by
        cases hst : s.state <;> simp [hst, phaseOf] at hp hfill <;>
          simp [nextRspSent, hst, hsent]
        simpa [stepDone, hst] using hd
      simp [hne, hsame]

/-- **An operation that has answered** early leaves its answer in the registers until it
is taken, and gives no other. -/
theorem owes_early (ho : OperationInv s) {p : DcState}
    (hp : phaseOf s.state = some p) (hsent : s.rspSent = true) :
    nextRsp cfg s i = rspCleared s i ∧
      (nextState cfg s i = .idle ∨ nextRspSent cfg s i = true) := by
  have hne : s.state ≠ .idle := by
    rintro hst
    simp [hst, phaseOf] at hp
  have hwhere := ho.sent hne
  rw [hsent, eq_comm, Bool.and_eq_true] at hwhere
  obtain ⟨hearly, hwhere⟩ := hwhere
  simp only [Bool.or_eq_true, Bool.and_eq_true, decide_eq_true_eq] at hwhere
  have hans : stepAnswers s i = false := by simp [stepAnswers, hsent]
  rcases hwhere with ⟨hst, hidx⟩ | hst
  · have hrsp : rspFsm cfg s i = rspCleared s i := by
      simp [rspFsm, hst, hsent, hidx]
    refine ⟨by simp [nextRsp, hans, hrsp], Or.inr ?_⟩
    simp [nextRspSent, hst, hidx, hsent]
  · exact ⟨by simp [nextRsp, hans, rspFsm, hst], Or.inr (by simp [nextRspSent, hst, hsent])⟩

/-- **The balance of an edge**: an answer taken and a request accepted make up the
difference in what is owed. -/
theorem owes_step (hr : ResponseInv s) (ho : OperationInv s) :
    (owes (running cfg s i)).toNat + (rspTaken cfg s i).toNat =
      (owes s).toNat + (reqAccept cfg s i).toNat := by
  cases hp : phaseOf s.state with
  | some p =>
    obtain ⟨hacc, htaken⟩ := @owes_of_phase cfg s i _ hp
    have hne : s.state ≠ .idle := by
      rintro hst
      simp [hst, phaseOf] at hp
    rw [hacc, htaken]
    cases hsent : s.rspSent with
    | false =>
      have hv := hr.pending hne hsent
      rw [owes_pending hp hsent]
      simp [hv, owes, hne, hsent]
    | true =>
      obtain ⟨hrsp, hnext⟩ := @owes_early cfg s i ho _ hp hsent
      have howes : owes (running cfg s i) = (rspCleared s i).valid := by
        show ((nextRsp cfg s i).valid || (nextState cfg s i ≠ .idle && !nextRspSent cfg s i)) = _
        rw [hrsp]
        rcases hnext with h | h <;> simp [h]
      rw [howes]
      cases hv : s.rsp.valid <;> cases hy : i.rspReady <;>
        simp [owes, rspCleared, hv, hy, hsent]
  | none =>
    cases hst : s.state <;> simp [hst, phaseOf] at hp
    case idle => exact owes_idle hst
    case lookup => exact owes_lookup hr hst
    all_goals
      have hne : s.state ≠ .idle := by simp [hst]
      have hsent : s.rspSent = false := by simpa [hst] using ho.sent hne
      have hv := hr.pending hne hsent
      have htaken : rspTaken cfg s i = false := by
        rw [rspTaken, rspValid_of_ne_lookup (by simp [hst]), hv]
        rfl
      have hacc : reqAccept cfg s i = false := by
        apply not_reqAccept_of_not_ready
        by_contra h
        rcases state_of_reqReady (Bool.not_eq_false _ ▸ h) with h | h <;> simp [hst] at h
      have howes : owes (running cfg s i) = true := by
        show ((nextRsp cfg s i).valid || (nextState cfg s i ≠ .idle && !nextRspSent cfg s i)) = true
        by_cases hz : s.wqCount = 0 <;>
          simp [nextRsp, stepAnswers, stepDone, rspFsm, nextState, nextRspSent, hst, hsent, hz]
      rw [howes, htaken, hacc]
      simp [owes, hne, hsent]

/-! ## The record of a run -/

/-- A request as the processor gives it. -/
structure Request where
  op : DcOp
  addr : BitVec 32
  be : BitVec 8
  wdata : BitVec 64
  wimg : Wimg
  deriving DecidableEq, Repr

/-- An answer as the processor takes it. -/
structure Answer where
  error : Bool
  align : Bool
  ok : Bool
  data : BitVec 64
  deriving DecidableEq, Repr

/-- The request on the inputs. -/
def offered (i : Input) : Request := ⟨i.reqOp, i.reqAddr, i.reqBe, i.reqWdata, i.reqWimg⟩

/-- The request in the registers. -/
def current (s : State) : Request := ⟨s.reqOp, s.reqAddr, s.reqBe, s.reqWdata, s.reqWimg⟩

/-- The answer in the registers. -/
def Response.answer (p : Response) : Answer := ⟨p.error, p.align, p.ok, p.data⟩

/-- The answer on the outputs. -/
def answerOf (cfg : Config) (s : State) (i : Input) : Answer :=
  { s.rsp.answer with data := rspData cfg s i }

/-- What has passed at the processor's port, and the beats without an error that the fill
of the last request has had. -/
structure Log where
  accepted : List Request
  answered : List (Request × Answer)
  beats : ℕ

/-- Nothing has passed. -/
def Log.start : Log := ⟨[], [], 0⟩

/-- The record after an edge; an answer is to the request in the registers. -/
def Log.update (cfg : Config) (l : Log) (s : State) (i : Input) : Log where
  accepted := l.accepted ++ if reqAccept cfg s i then [offered i] else []
  answered := l.answered ++ if rspTaken cfg s i then [(current s, answerOf cfg s i)] else []
  beats := if reqAccept cfg s i then 0 else if fillBeat s i then l.beats + 1 else l.beats

/-- The requests that have no answer yet. -/
def unanswered (s : State) : List Request := if owes s then [current s] else []

theorem current_running : current (running cfg s i) =
    if reqAccept cfg s i then offered i else current s := by
  cases h : reqAccept cfg s i <;> simp [current, offered, running, h]

/-- A request is accepted, and an answer taken, only as what is owed allows. -/
theorem owes_cases (hr : ResponseInv s) (ho : OperationInv s) :
    (reqAccept cfg s i = true → owes s = rspTaken cfg s i ∧ owes (running cfg s i) = true) ∧
      (reqAccept cfg s i = false → (rspTaken cfg s i = true → owes s = true) ∧
        owes (running cfg s i) = (owes s && !rspTaken cfg s i)) := by
  have hbal := @owes_step cfg s i hr ho
  have hentered : reqAccept cfg s i = true → owes (running cfg s i) = true := by
    intro hacc
    have hready : reqReady cfg s i = true := by
      simp only [reqAccept, Bool.and_eq_true] at hacc
      exact hacc.2
    have hstate : nextState cfg s i = .lookup := by rw [nextState_of_reqReady hready, if_pos hacc]
    have hsent := (lookup_running hr hstate).2
    show ((nextRsp cfg s i).valid || (nextState cfg s i ≠ .idle && !nextRspSent cfg s i)) = true
    simp [hstate, hsent]
  constructor
  · intro hacc
    rw [hacc, hentered hacc] at hbal
    refine ⟨?_, hentered hacc⟩
    cases h : owes s <;> cases h' : rspTaken cfg s i <;> simp [h, h'] at hbal ⊢
  · intro hacc
    rw [hacc] at hbal
    cases h : owes s <;> cases h' : rspTaken cfg s i <;> cases h'' : owes (running cfg s i) <;>
      simp [h, h', h''] at hbal ⊢

/-- **The requests answered are those accepted**, in order, but for the one in progress. -/
theorem accepted_step {l : Log} (hr : ResponseInv s) (ho : OperationInv s)
    (h : l.accepted = l.answered.map Prod.fst ++ unanswered s) :
    (l.update cfg s i).accepted =
      (l.update cfg s i).answered.map Prod.fst ++ unanswered (running cfg s i) := by
  obtain ⟨hacc, hkeep⟩ := @owes_cases cfg s i hr ho
  have hcur := @current_running cfg s i
  cases ha : reqAccept cfg s i with
  | true =>
    obtain ⟨howes, hnew⟩ := hacc ha
    rw [ha, if_pos rfl] at hcur
    cases ht : rspTaken cfg s i <;> simp [Log.update, unanswered, h, ha, ht, howes, hnew, hcur]
  | false =>
    obtain ⟨htaken, hnew⟩ := hkeep ha
    rw [ha, if_neg (by simp)] at hcur
    cases ht : rspTaken cfg s i with
    | true => simp [Log.update, unanswered, h, ha, ht, htaken ht, hnew]
    | false => simp [Log.update, unanswered, h, ha, ht, hnew, hcur]

/-! ## The answer in the registers -/

/-- An answer in the registers stays there, with its request, until it is taken. -/
theorem answer_waits (hr : ResponseInv s) (ho : OperationInv s) (hv : s.rsp.valid = true) :
    (rspTaken cfg s i = true ∧ answerOf cfg s i = s.rsp.answer) ∨
      (rspTaken cfg s i = false ∧ (running cfg s i).rsp = s.rsp ∧
        current (running cfg s i) = current s) := by
  have hlk : s.state ≠ .lookup := by
    intro hst
    simp [(hr.lookup hst).1] at hv
  have htaken : rspTaken cfg s i = i.rspReady := by
    rw [rspTaken, rspValid_of_ne_lookup hlk, hv, Bool.true_and]
  cases hy : i.rspReady with
  | true =>
    refine Or.inl ⟨by rw [htaken, hy], ?_⟩
    simp [answerOf, Response.answer, rspData, lkFast, hlk]
  | false =>
    rw [hy] at htaken
    have hcleared : rspCleared s i = s.rsp := by simp [rspCleared, hy]
    have hacc : reqAccept cfg s i = false := by
      by_contra h
      have howes := ((@owes_cases cfg s i hr ho).1 (Bool.not_eq_false _ ▸ h)).1
      simp [owes, hv, htaken] at howes
    refine Or.inr ⟨htaken, ?_, by rw [current_running, hacc, if_neg (by simp)]⟩
    show nextRsp cfg s i = s.rsp
    rw [← hcleared]
    by_cases hidle : s.state = .idle
    · simp [nextRsp, stepAnswers, stepDone, rspFsm, hidle]
    · have hsent : s.rspSent = true := by
        by_contra h
        simp [hr.pending hidle (Bool.not_eq_true _ ▸ h)] at hv
      cases hp : phaseOf s.state with
      | some p => exact (owes_early ho hp hsent).1
      | none =>
        have hwhere := ho.sent hidle
        cases hst : s.state <;> simp [hst, phaseOf, hsent] at hp hwhere

/-! ## The beats of a fill -/

theorem firstStep_eq_sread {p : Plan} (h : firstStep p = .sreadReq) :
    p.fill = false ∧ p.sread = true := by
  unfold firstStep at h
  split_ifs at h
  simp_all

/-- The record counts the beats of a fill as the cache does, and a single read has none. -/
structure BeatsInv (s : State) (l : Log) : Prop where
  fresh : s.state = .lookup → l.beats = 0
  reading : phaseOf s.state ≠ none → s.plan.fill = true ∨ s.plan.sread = true →
    l.beats = if s.state = .fillWait then s.stepIdx else 0

theorem beatsInv_step {l : Log} (hc : ControlInv s) (ho : OperationInv s) (h : BeatsInv s l) :
    BeatsInv (running cfg s i) (l.update cfg s i) where
  fresh hst := by
    rcases next_lookup hst with ⟨hacc, -⟩ | ⟨hst, -, hacc⟩
    · simp [Log.update, hacc]
    · simp [Log.update, hacc, fillBeat, hst, h.fresh hst]
  reading hq hplan := by
    show (l.update cfg s i).beats = if nextState cfg s i = .fillWait then nextStepIdx cfg s i else 0
    have hq' : phaseOf (nextState cfg s i) ≠ none := hq
    have hplan' : (nextPlan cfg s i).fill = true ∨ (nextPlan cfg s i).sread = true := hplan
    cases hp : phaseOf s.state with
    | none =>
      obtain ⟨q, hq⟩ := Option.ne_none_iff_exists'.1 hq'
      obtain ⟨hst, -, -, -, hacc, hn, -⟩ := enter_phase hp hq
      rw [hn, if_neg (firstStep_ne_fillWait _)]
      simp [Log.update, hacc, fillBeat, hst, h.fresh hst]
    | some p =>
      have hacc := @reqAccept_of_phase cfg s i _ hp
      have hbeats : (l.update cfg s i).beats = if fillBeat s i then l.beats + 1 else l.beats := by
        simp [Log.update, hacc]
      have hidx := ho.index
      rw [hbeats]
      rcases @phase_step cfg s i _ hp with ⟨hd, hn, hpl⟩ | ⟨hd, hn, hpl⟩ | ⟨-, -, -, -, hn⟩
      · rw [hn, if_neg (firstStep_ne_fillWait _)]
        rw [hpl] at hplan'
        obtain ⟨hplanned, hfirst⟩ := hc p hp
        -- a fill or a single read that is left was not the step that ended
        have hne : s.state ≠ .fillWait ∧ (s.plan.fill = true ∨ s.plan.sread = true) := by
          have hold : s.plan.fill = true ∨ s.plan.sread = true := by
            cases p <;> simp_all [Plan.clear]
          refine ⟨?_, hold⟩
          intro hst
          rw [hst] at hp
          obtain rfl := Option.some.inj hp
          have hfill := firstStep_eq_fill hfirst
          simp [Plan.clear, (planned_fill hplanned hfill).2.2.1] at hplan'
        have hold := h.reading (by simp [hp]) hne.2
        rw [if_neg hne.1] at hold
        simp [fillBeat, hne.1, hold]
      · rw [hpl] at hplan'
        have hold := h.reading (by simp [hp]) hplan'
        rw [hold]
        by_cases hst : s.state = .fillWait
        · rw [hst] at hp
          have hwait : nextState cfg s i = .fillWait := by
            have herr : (i.busRdValid && i.busRdError) = false := by
              by_contra herr
              have hidle : nextState cfg s i = .idle := by
                simp [nextState, hd, hst, Bool.not_eq_false _ ▸ herr]
              exact hq' (by rw [hidle]; rfl)
            simp [nextState, hd, hst, herr]
          rw [if_pos hst, if_pos hwait]
          have hlast : fillBeat s i = true → s.stepIdx ≠ 3 := by
            intro hb h3
            simp [stepDone, hst, hb, h3] at hd
          simp only [nextStepIdx, hd, hst, Bool.false_eq_true, if_false]
          cases hb : fillBeat s i with
          | true =>
            have hne := hlast hb
            simp only [if_true]
            omega
          | false => simp
        · have hno : fillBeat s i = false := by simp [fillBeat, hst]
          rw [if_neg hst, hno]
          by_cases hwait : nextState cfg s i = .fillWait
          · have hzero : nextStepIdx cfg s i = 0 := by
              have hreq : s.state = .fillReq ∧ busAccept s i = true := by
                rw [hwait] at hn
                obtain rfl := Option.some.inj hn
                cases hs : s.state <;> simp [hs, phaseOf] at hp hst ⊢
                by_contra hb
                simp [nextState, hd, hs, hb] at hwait
              simp [nextStepIdx, hd, hreq.1, hreq.2]
            simp [hwait, hzero]
          · simp [hwait]
      · exact absurd (by rw [hn]; rfl) hq'

/-! ## What is known of the operation in progress -/

/-- The operation in progress reads the bus, and its read ends in an error. -/
def ReadFails (s : State) (i : Input) : Prop :=
  (s.state = .fillWait ∨ s.state = .sreadWait) ∧ i.busRdValid = true ∧ i.busRdError = true

/-- The operation in progress is a load. -/
def Loads (s : State) : Prop := s.reqOp = .load ∨ s.reqOp = .lwarx

/-- What the record says of the operation in progress; an answer given early was no error. -/
structure LogInv (s : State) (l : Log) : Prop where
  order : l.accepted = l.answered.map Prod.fst ++ unanswered s
  beats : BeatsInv s l
  early : s.state ≠ .idle → s.rspSent = true →
    (s.rsp.valid = true ∧ s.rsp.error = false) ∨
      (s.rsp.valid = false ∧ ∃ a : Answer, l.answered.getLast? = some (current s, a) ∧
        a.error = false)

/-- Only the first beat of a fill is answered before its operation has ended. -/
theorem sent_new (hc : ControlInv s) (ho : OperationInv s)
    (hne : nextState cfg s i ≠ .idle) (hold : s.rspSent = false)
    (hnew : nextRspSent cfg s i = true) :
    nextRsp cfg s i = { valid := true, data := i.busRdData } := by
  cases hst : s.state <;> simp only [nextRspSent, hst, hold] at hnew
  case idle => split_ifs at hnew
  case lookup => split_ifs at hnew
  case fillWait =>
    have hd : s.stepIdx = 0 → stepDone s i = false := by
      intro h
      simp [stepDone, hst, h]
    split_ifs at hnew with herr hbeat
    · refine absurd ?_ hne
      have hd' : stepDone s i = false := by
        rw [Bool.and_eq_true] at herr
        simp [stepDone, hst, fillBeat, herr.2]
      simp [nextState, hd', hst, herr]
    · have hbeat' := hbeat
      simp only [Bool.and_eq_true, decide_eq_true_eq] at hbeat'
      simp [nextRsp, stepAnswers, hd hbeat'.1.2, rspFsm, hst, herr, hbeat]
  case sreadWait =>
    split_ifs at hnew with hv
    have hp : phaseOf s.state = some .sreadReq := by rw [hst]; rfl
    have hd : stepDone s i = true := by simp [stepDone, hst, hv]
    have hleft := left_next _ _ (ho.left (by simp [hp]))
    exact absurd ((next_of_done hc hp hd).1.trans (hleft.1 (hc _ hp).2).2) hne
  all_goals cases hnew

theorem logInv_step {l : Log} (hc : ControlInv s) (hr : ResponseInv s) (ho : OperationInv s)
    (h : LogInv s l) : LogInv (running cfg s i) (l.update cfg s i) where
  order := accepted_step hr ho h.order
  beats := beatsInv_step hc ho h.beats
  early hne hsent := by
    have hne' : nextState cfg s i ≠ .idle := hne
    have hsent' : nextRspSent cfg s i = true := hsent
    have hrsp : (running cfg s i).rsp = nextRsp cfg s i := rfl
    rw [hrsp]
    cases hold : s.rspSent with
    | false => exact Or.inl (by simp [sent_new hc ho hne' hold hsent'])
    | true =>
      have hidle : s.state ≠ .idle := by
        intro hst
        have hacc : reqAccept cfg s i = true := by
          by_contra hacc
          exact hne' (by simp [nextState, stepDone, hst, hacc])
        simp [nextRspSent, hst, hacc] at hsent'
      have hlk : s.state ≠ .lookup := by
        intro hst
        simp [(hr.lookup hst).2] at hold
      obtain ⟨p, hp⟩ : ∃ p, phaseOf s.state = some p := by
        have hwhere := ho.sent hidle
        rw [hold, eq_comm, Bool.and_eq_true] at hwhere
        simp only [Bool.or_eq_true, Bool.and_eq_true, decide_eq_true_eq] at hwhere
        rcases hwhere.2 with ⟨hst, -⟩ | hst <;> exact ⟨_, by rw [hst]; rfl⟩
      obtain ⟨hacc, htaken⟩ := @owes_of_phase cfg s i _ hp
      have hcur : current (running cfg s i) = current s := by
        rw [current_running, hacc, if_neg (by simp)]
      rw [(owes_early ho hp hold).1, hcur]
      rcases h.early hidle hold with ⟨hv, he⟩ | ⟨hv, a, hlast, he⟩
      · cases hy : i.rspReady with
        | false => exact Or.inl (by simp [rspCleared, hy, hv, he])
        | true =>
          refine Or.inr ⟨by simp [rspCleared, hy, hv], answerOf cfg s i, ?_, he⟩
          simp [Log.update, htaken, hv, hy]
      · refine Or.inr ⟨by simp [rspCleared, hv], a, ?_, he⟩
        simp [Log.update, htaken, hv, hlast]

theorem logInv_initial (h : (machine cfg).Initial s) : LogInv s Log.start := by
  obtain ⟨hst, -, -, -, hv, -⟩ := state_initial h
  refine ⟨?_, ⟨?_, ?_⟩, ?_⟩ <;> simp [hst, hv, Log.start, unanswered, owes, phaseOf]

/-! ## Errors -/

/-- A load whose read ends in an error before its data answers with the error. -/
theorem load_refused {l : Log} (hr : ResponseInv s) (ho : OperationInv s) (h : LogInv s l)
    (hc : ControlInv s) (hf : ReadFails s i) (hl : Loads s) (hbeats : l.beats = 0) :
    owes s = true ∧ rspTaken cfg s i = false ∧ current (running cfg s i) = current s ∧
      (running cfg s i).rsp.valid = true ∧ (running cfg s i).rsp.error = true := by
  obtain ⟨hst, hv, he⟩ := hf
  have htouch : touchOp s = false := by
    rcases hl with hl | hl <;> simp [touchOp, hl]
  obtain ⟨p, hp⟩ : ∃ p, phaseOf s.state = some p := by
    rcases hst with hst | hst <;> exact ⟨_, by rw [hst]; rfl⟩
  have hne : s.state ≠ .idle := by
    intro h
    simp [h, phaseOf] at hp
  have hsent : s.rspSent = false := by
    rw [ho.sent hne]
    rcases hst with hst | hst
    · have hphase : phaseOf s.state = some .fillReq := by rw [hst]; rfl
      have hidx := h.beats.reading (by simp [hp]) (Or.inl (firstStep_eq_fill (hc _ hphase).2))
      rw [if_pos hst, hbeats] at hidx
      simp [hst, ← hidx]
    · simp [hst]
  obtain ⟨hacc, htaken⟩ := @owes_of_phase cfg s i _ hp
  refine ⟨by simp [owes, hne, hsent], by simp [htaken, hr.pending hne hsent], ?_, ?_⟩
  · rw [current_running, hacc, if_neg (by simp)]
  · show (nextRsp cfg s i).valid = true ∧ (nextRsp cfg s i).error = true
    rcases hst with hst | hst
    · simp [nextRsp, stepAnswers, stepDone, fillBeat, rspFsm, hst, hv, he, hsent, htouch]
    · simp [nextRsp, stepAnswers, rspFsm, hst, hv, he]

/-- A load whose fill ends in an error after its data raises the machine check. -/
theorem load_late {l : Log} (ho : OperationInv s) (h : LogInv s l) (hc : ControlInv s)
    (hf : ReadFails s i) (hl : Loads s) (hbeats : l.beats ≠ 0) :
    s.state = .fillWait ∧ s.rspSent = true ∧ (running cfg s i).asyncError = true := by
  obtain ⟨hst, hv, he⟩ := hf
  have htouch : touchOp s = false := by
    rcases hl with hl | hl <;> simp [touchOp, hl]
  have hearly : earlyRspOp s = true := by
    rcases hl with hl | hl <;> simp [earlyRspOp, hl]
  rcases hst with hst | hst
  · have hphase : phaseOf s.state = some .fillReq := by rw [hst]; rfl
    have hidx := h.beats.reading (by simp [hphase]) (Or.inl (firstStep_eq_fill (hc _ hphase).2))
    rw [if_pos hst] at hidx
    have hsent : s.rspSent = true := by
      rw [ho.sent (by simp [hst])]
      simp [hst, hearly, ← hidx, hbeats]
    refine ⟨hst, hsent, ?_⟩
    show ((i.busWrDone && i.busWrError) || (i.pushDone && i.pushError) || fillAsyncError s i) = true
    simp [fillAsyncError, hst, hv, he, hsent, htouch]
  · have hphase : phaseOf s.state = some .sreadReq := by rw [hst]; rfl
    have hidx := h.beats.reading (by simp [hphase])
      (Or.inr (firstStep_eq_sread (hc _ hphase).2).2)
    rw [if_neg (by simp [hst])] at hidx
    exact absurd hidx hbeats

/-! ## Along a run -/

section Run

variable {r : Run (machine cfg)}

/-- The record of a run. -/
def log (r : Run (machine cfg)) (n : ℕ) : Log := r.history Log.start (Log.update cfg) n

theorem log_succ (n : ℕ) : log r (n + 1) = (log r n).update cfg (r.state n) (r.input n) := rfl

theorem logInv_run {n : ℕ} (h : r.Obeys OutOfReset n) : LogInv (r.state n) (log r n) := by
  induction n with
  | zero => exact logInv_initial r.initial
  | succ n ih =>
    have hrun := h.mono n.le_succ
    have hn : r.state (n + 1) = running cfg (r.state n) (r.input n) :=
      step_running (h n n.lt_succ_self)
    rw [hn, log_succ]
    exact logInv_step (arrayInv_run hrun).control (responseInv_run hrun) (operationInv_run hrun)
      (ih hrun)

theorem answered_mono {m n : ℕ} (h : m ≤ n) : (log r m).answered <+: (log r n).answered := by
  induction n, h using Nat.le_induction with
  | base => exact List.prefix_refl _
  | succ n _ ih => exact ih.trans (List.prefix_append _ _)

theorem accepted_mono {m n : ℕ} (h : m ≤ n) : (log r m).accepted <+: (log r n).accepted := by
  induction n, h using Nat.le_induction with
  | base => exact List.prefix_refl _
  | succ n _ ih => exact ih.trans (List.prefix_append _ _)

theorem getElem_mono {α : Type*} {l l' : List α} (h : l <+: l') {k : ℕ} {x : α}
    (hx : l[k]? = some x) : l'[k]? = some x := by
  obtain ⟨t, rfl⟩ := h
  rw [List.getElem?_append_left (List.getElem?_eq_some_iff.1 hx).1, hx]

/-- The answer taken to a request, whenever it is taken, is the one the record has. -/
theorem answered_same {m n k : ℕ} {x y : Request × Answer}
    (hx : (log r m).answered[k]? = some x) (hy : (log r n).answered[k]? = some y) : x = y := by
  rcases Nat.le_total m n with h | h
  · exact Option.some.inj ((getElem_mono (answered_mono h) hx).symm.trans hy)
  · exact Option.some.inj (hx.symm.trans (getElem_mono (answered_mono h) hy))

/-- **An answer in the registers is the one taken.** -/
theorem answer_kept (hrun : ∀ n, OutOfReset (r.state n) (r.input n)) {n m : ℕ}
    (hv : (r.state n).rsp.valid = true) {x : Request × Answer}
    (hx : (log r m).answered[(log r n).answered.length]? = some x) :
    x = (current (r.state n), (r.state n).rsp.answer) := by
  have hkept : ∀ k, n ≤ k →
      ((log r k).answered = (log r n).answered ∧ (r.state k).rsp = (r.state n).rsp ∧
        current (r.state k) = current (r.state n)) ∨
      (log r n).answered ++ [(current (r.state n), (r.state n).rsp.answer)] <+:
        (log r k).answered := by
    intro k hk
    induction k, hk using Nat.le_induction with
    | base => exact Or.inl ⟨rfl, rfl, rfl⟩
    | succ k hk ih =>
      rcases ih with ⟨ha, hrsp, hcur⟩ | hpre
      · have hobeys : r.Obeys OutOfReset k := fun j _ => hrun j
        have hn : r.state (k + 1) = running cfg (r.state k) (r.input k) := step_running (hrun k)
        have hlog : (log r (k + 1)).answered = (log r k).answered ++
            if rspTaken cfg (r.state k) (r.input k) then
              [(current (r.state k), answerOf cfg (r.state k) (r.input k))] else [] := rfl
        rw [hlog, hn]
        rcases @answer_waits cfg _ (r.input k) (responseInv_run hobeys) (operationInv_run hobeys)
            (by rw [hrsp]; exact hv) with ⟨ht, hans⟩ | ⟨ht, hrsp', hcur'⟩
        · rw [if_pos ht, ha, hcur, hans, hrsp]
          exact Or.inr (List.prefix_refl _)
        · rw [ht, if_neg (by simp), List.append_nil, hrsp', hcur']
          exact Or.inl ⟨ha, hrsp, hcur⟩
      · exact Or.inr (hpre.trans (answered_mono k.le_succ))
  have hlater := getElem_mono (answered_mono (Nat.le_max_left m n)) hx
  rcases hkept (max m n) (Nat.le_max_right m n) with ⟨ha, -⟩ | hpre
  · rw [ha, List.getElem?_eq_none (Nat.le_refl _)] at hlater
    cases hlater
  · have hfirst : (log r (max m n)).answered[(log r n).answered.length]? =
        some (current (r.state n), (r.state n).rsp.answer) :=
      getElem_mono hpre (by simp)
    exact Option.some.inj (hlater.symm.trans hfirst)

/-- The number of the request in the registers, in the order of the accepted ones. -/
def number (r : Run (machine cfg)) (n : ℕ) : ℕ := (log r n).accepted.length - 1

/-- The request in progress is the first without an answer, while it owes one. -/
theorem number_of_owes {n : ℕ} (h : LogInv (r.state n) (log r n)) (ho : owes (r.state n) = true) :
    number r n = (log r n).answered.length := by
  simp [number, h.order, unanswered, ho]

/-- **A load refused by its read** is answered with the error. -/
theorem refused_answer (hrun : ∀ n, OutOfReset (r.state n) (r.input n)) {n m : ℕ}
    (hf : ReadFails (r.state n) (r.input n)) (hl : Loads (r.state n))
    (hb : (log r n).beats = 0) {x : Request × Answer}
    (hx : (log r m).answered[number r n]? = some x) :
    x.1 = current (r.state n) ∧ x.2.error = true := by
  have hobeys : r.Obeys OutOfReset n := fun j _ => hrun j
  have hlog := logInv_run hobeys
  obtain ⟨howes, htaken, hcur, hv, he⟩ := @load_refused cfg _ _ _ (responseInv_run hobeys)
    (operationInv_run hobeys) hlog (arrayInv_run hobeys).control hf hl hb
  have hn : r.state (n + 1) = running cfg (r.state n) (r.input n) := step_running (hrun n)
  have hsame : (log r (n + 1)).answered = (log r n).answered := by
    simp [log_succ, Log.update, htaken]
  rw [number_of_owes hlog howes, ← hsame] at hx
  obtain rfl := answer_kept hrun (by rw [hn]; exact hv) hx
  rw [hn]
  exact ⟨hcur, he⟩

/-- **A load whose data was there first** is answered without an error. -/
theorem late_answer (hrun : ∀ n, OutOfReset (r.state n) (r.input n)) {n m : ℕ}
    (hf : ReadFails (r.state n) (r.input n)) (hl : Loads (r.state n))
    (hb : (log r n).beats ≠ 0) {x : Request × Answer}
    (hx : (log r m).answered[number r n]? = some x) :
    x.1 = current (r.state n) ∧ x.2.error = false := by
  have hobeys : r.Obeys OutOfReset n := fun j _ => hrun j
  have hlog := logInv_run hobeys
  obtain ⟨hst, hsent, -⟩ := @load_late cfg _ _ _ (operationInv_run hobeys) hlog
    (arrayInv_run hobeys).control hf hl hb
  rcases hlog.early (by simp [hst]) hsent with ⟨hv, he⟩ | ⟨hv, a, hlast, he⟩
  · rw [number_of_owes hlog (by simp [owes, hv])] at hx
    obtain rfl := answer_kept hrun hv hx
    exact ⟨rfl, he⟩
  · have hnone : owes (r.state n) = false := by simp [owes, hv, hsent]
    have hnum : number r n = (log r n).answered.length - 1 := by
      simp [number, hlog.order, unanswered, hnone]
    have hat : (log r n).answered[number r n]? = some (current (r.state n), a) := by
      rw [hnum, ← List.getLast?_eq_getElem?, hlast]
    obtain rfl := answered_same hx hat
    exact ⟨rfl, he⟩

end Run

end Dcache
end SloPPC603
