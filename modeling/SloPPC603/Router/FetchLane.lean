import SloPPC603.Router.DataLane

/-!
# The fetch lane

The fetch lane keeps one accepted request: on its way through the translation sequence,
waiting for the physical port, or sent there; after an error it may be sent once more.

* `FetchOpen` — the open request of the fetch lane, by its state.
* `fetch_step` — an edge of the lane passes traffic that belongs together.
-/

namespace SloPPC603
namespace Router

open Clocked

/-! ## The open request -/

/-- The access the lane holds for the physical port. -/
def heldFetchAccess (s : State) : FetchAccess := ⟨s.iPa, s.iWimg⟩

/-- What the request has sent and been answered before its access in hand: an error, when
it is fetched once more. -/
def FetchBefore (cfg : Config) (s : State) (as : List FetchAccess) (bs : List FetchAnswer) :
    Prop :=
  if s.iRefetch then
    as = [heldFetchAccess s] ∧ ∃ b, bs = [b] ∧ b.error = true ∧ cfg.refetches = true
  else as = [] ∧ bs = []

/-- What the fetch lane has open: the request, its accesses and their answers. -/
def FetchOpen (cfg : Config) (s : State) (qs : List FetchTaken) (as : List FetchAccess)
    (bs : List FetchAnswer) : Prop :=
  match s.iState with
  | .idle => qs = [] ∧ as = [] ∧ bs = [] ∧ s.iRefetch = false
  | .wait | .slow =>
    as = [] ∧ bs = [] ∧ s.iRefetch = false ∧ ∃ q, qs = [q] ∧ q.addr = s.iEa ∧
      outcome cfg s.arch (laneAccess s true) = q.outcome cfg
  | .offer =>
    ∃ q, qs = [q] ∧ FetchSends cfg q (heldFetchAccess s) s.iEsa ∧ FetchBefore cfg s as bs
  | .response =>
    ∃ q before, qs = [q] ∧ FetchSends cfg q (heldFetchAccess s) s.iEsa ∧
      as = before ++ [heldFetchAccess s] ∧ FetchBefore cfg s before bs
  | .fatal =>
    ∃ q b, qs = [q] ∧ FetchSends cfg q (heldFetchAccess s) s.iEsa ∧ as = [heldFetchAccess s] ∧
      bs = [b] ∧ b.error = true ∧ cfg.enableMachineCheck = false

/-- The fetch lane's traffic belongs together. -/
def FetchPaired (cfg : Config) (s : State)
    (t : Traffic FetchTaken FetchAccess FetchAnswer FetchResponse) : Prop :=
  ∃ qs as bs, Paired (FetchServed cfg) t qs as bs ∧ FetchOpen cfg s qs as bs

/-! ## What an edge passes -/

section Edge

variable {cfg : Config} {s : State} {i : Input}

theorem fetchSent_eq (hrst : i.rstN = true) : fetchSent cfg s i =
    if (s.iState = .offer ∨ iPipeTry cfg s i = true) ∧ i.pimemReqReady = true then
      some (pimemReq cfg s i) else none := by
  simp only [fetchSent, pimemReqValid, hrst, Bool.true_and, Bool.and_eq_true, Bool.or_eq_true,
    decide_eq_true_eq]

/-- An answer is taken with an error, to be fetched again, or for the response. -/
theorem fetchAnswered_eq (hrst : i.rstN = true) : fetchAnswered cfg s i =
    if iError cfg s i || iRefetchFire cfg s i || iFinish cfg s i then some i.pimemRsp
    else none := by
  have heq : (i.pimemRspValid && pimemRspReady cfg s i) =
      (iError cfg s i || iRefetchFire cfg s i || iFinish cfg s i) := by
    by_cases hs : s.iState = .response
    · simp only [pimemRspReady, iFinish, iError, iRefetchFire, hrst, hs, decide_true,
        Bool.true_and]
      cases i.pimemRspValid <;> cases i.pimemRsp.error <;> cases cfg.enableMachineCheck <;>
        cases cfg.fetchTeaRefetch <;> cases s.iRefetch <;> simp
    · simp [pimemRspReady, iFinish, iError, iRefetchFire, hs]
  rw [fetchAnswered, heq]

/-- A response is delivered as the port's answer is taken, or from the fault state. -/
theorem fetchGiven_eq (hc : Ctrl cfg s) (hrst : i.rstN = true) : fetchGiven cfg s i =
    if iFinish cfg s i then some (fetchReply cfg s.iEsa s.iRefetch i.pimemRsp)
    else if s.route = .ifetchFaultResponse ∧ i.imemRspReady = true then some (fetchHeld cfg s)
    else none := by
  by_cases hs : s.iState = .response
  · have hr : s.route ≠ .ifetchFaultResponse := by
      intro hr
      have hi := hc.slow_i.2 ⟨by simp [hr], hc.fault_i (Or.inl hr)⟩
      rw [hs] at hi
      cases hi
    have hrsp : imemRsp cfg s i = fetchReply cfg s.iEsa s.iRefetch i.pimemRsp := by
      have hfault : imemRspFault cfg s i ≠ .pageMiss := by
        simp only [imemRspFault, hs, if_true]
        split_ifs <;> simp
      have hmiss : (cfg.enablePageMissResults && decide (imemRspFault cfg s i = .pageMiss)) =
          false := by
        rw [decide_eq_false hfault, Bool.and_false]
      unfold imemRsp
      rw [hmiss]
      simp only [imemRspBlank, imemRspFault, hs, if_true, decide_true, Bool.true_and, fetchReply,
        Bool.false_eq_true, if_false]
    have hval : (imemRspValid cfg s i && i.imemRspReady) = iFinish cfg s i := by
      simp only [imemRspValid, hs, if_true, hrst, Bool.true_and, iFinish, iError, decide_true]
      cases i.pimemRspValid <;> cases i.pimemRsp.error <;> cases cfg.enableMachineCheck <;> simp
    simp only [fetchGiven, hval, hrsp, hr, false_and, if_false]
  · have hrsp : imemRsp cfg s i = fetchHeld cfg s := by
      simp [imemRsp, imemRspBlank, imemRspFault, hs, fetchHeld]
    simp only [fetchGiven, imemRspValid, hs, hrst, iFinish, hrsp]
    simp

/-- Only the slow lane is routed. -/
theorem not_iRouted (hc : Ctrl cfg s) (hs : s.iState ≠ .slow) :
    (routeAllow s && s.request.instruction) = false ∧ s.route ≠ .ifetchFaultResponse := by
  refine ⟨?_, ?_⟩
  · rw [← Bool.not_eq_true, Bool.and_eq_true]
    rintro ⟨ha, hq⟩
    exact hs (hc.slow_i.2 ⟨route_of_routeAllow ha, hq⟩)
  · intro hr
    exact hs (hc.slow_i.2 ⟨by simp [hr], hc.fault_i (Or.inl hr)⟩)

/-- What the lane holds after it has accepted a fetch. -/
theorem iHeld_of_accept (hc : Ctrl cfg s) (ha : iAccept cfg s i = true) :
    (runState cfg s i).iEa = i.imemReqAddr ∧
      heldFetchAccess (runState cfg s i) = ⟨iHitPa cfg s i, iHitWimg cfg s i⟩ ∧
      (runState cfg s i).iEsa = iHitEsa cfg s i := by
  have hs : s.iState ≠ .slow := by
    rcases iState_of_iAccept ha with hx | hx <;> simp [hx]
  obtain ⟨hroute, -⟩ := not_iRouted hc hs
  refine ⟨?_, ?_, ?_⟩ <;> simp [heldFetchAccess, runState, ha, hroute]

/-- What it holds when it has not. -/
theorem iHeld_of_keep (hc : Ctrl cfg s) (ha : iAccept cfg s i = false) (hs : s.iState ≠ .slow) :
    heldFetchAccess (runState cfg s i) = heldFetchAccess s ∧
      (runState cfg s i).iEsa = s.iEsa := by
  obtain ⟨hroute, -⟩ := not_iRouted hc hs
  refine ⟨?_, ?_⟩ <;> simp [heldFetchAccess, runState, ha, hroute]

theorem not_iAccept (hs : s.iState ≠ .idle) (hs' : s.iState ≠ .response) :
    iAccept cfg s i = false := by
  rw [← Bool.not_eq_true]
  intro ha
  rcases iState_of_iAccept ha with hx | hx
  · exact hs hx
  · exact hs' hx

theorem not_iPipeTry (ha : iAccept cfg s i = false) : iPipeTry cfg s i = false := by
  simp [iPipeTry, ha]

/-- A lane without an answer to take. -/
theorem not_iFinish (hs : s.iState ≠ .response) : iFinish cfg s i = false ∧
    iError cfg s i = false ∧ iRefetchFire cfg s i = false := by
  simp [iFinish, iError, iRefetchFire, hs]

end Edge

/-! ## Over an edge -/

section Step

variable {cfg : Config} {s : State} {i : Input} (hc : Ctrl cfg s) (h : Seq cfg s)
  (hrst : i.rstN = true)
  {t : Traffic FetchTaken FetchAccess FetchAnswer FetchResponse} {qs : List FetchTaken}
  {as : List FetchAccess} {bs : List FetchAnswer}

/-- What an edge of the lane adds to its traffic. -/
def fetchEdge (cfg : Config) (s : State) (i : Input)
    (t : Traffic FetchTaken FetchAccess FetchAnswer FetchResponse) :
    Traffic FetchTaken FetchAccess FetchAnswer FetchResponse :=
  t.add (fetchTaken cfg s i) (fetchSent cfg s i) (fetchAnswered cfg s i) (fetchGiven cfg s i)

include hc h hrst in
/-- A fetch accepted into the lane is open, with the access it has made at once. -/
theorem open_of_iAccept (hr : Repeats cfg s) (ha : iAccept cfg s i = true)
    (hre : (runState cfg s i).iRefetch = false) :
    FetchOpen cfg (runState cfg s i) [⟨i.imemReqAddr, s.arch⟩] (fetchSent cfg s i).toList [] := by
  obtain ⟨hea, hacc, hesa⟩ := iHeld_of_accept hc ha
  obtain ⟨hv, hok, hst⟩ := of_iAccept ha
  have hno : s.iState ≠ .offer := by
    rcases iState_of_iAccept ha with hx | hx <;> simp [hx]
  have hnext : (runState cfg s i).iState = iAcceptState cfg s i := by
    show nextIState cfg s i = _
    rcases hst with hx | hfin
    · simp [nextIState, hx, ha]
    · obtain ⟨hs, -, href, herr, -⟩ := of_iFinish hfin
      simp [nextIState, hs, href, herr, ha]
  unfold FetchOpen
  rw [hnext, fetchSent_eq hrst]
  cases hhit : iHit cfg s i with
  | true =>
    have hsend : FetchSends cfg ⟨i.imemReqAddr, s.arch⟩ (heldFetchAccess (runState cfg s i))
        (runState cfg s i).iEsa := by
      rw [hacc, hesa]
      exact iHit_outcome hr hhit
    have hbefore : FetchBefore cfg (runState cfg s i) [] [] := by simp [FetchBefore, hre]
    by_cases hpipe : iPipeTry cfg s i = true ∧ i.pimemReqReady = true
    · have hreq : pimemReq cfg s i = heldFetchAccess (runState cfg s i) := by
        have hen := hpipe.1
        simp only [iPipeTry, Bool.and_eq_true] at hen
        rw [hacc]
        simp [pimemReq, hen.1.1, hno]
      simp only [iAcceptState, hhit, if_true, hpipe, Bool.and_self, and_true, or_true]
      exact ⟨_, [], rfl, hsend, by simp [hreq], hbefore⟩
    · have hnot : (iPipeTry cfg s i && i.pimemReqReady) = false := by
        simpa using hpipe
      have hnone : ¬ ((s.iState = .offer ∨ iPipeTry cfg s i = true) ∧
          i.pimemReqReady = true) := by
        rintro ⟨hx | hx, hy⟩
        · exact hno hx
        · exact hpipe ⟨hx, hy⟩
      rw [if_neg hnone]
      simp only [iAcceptState, hhit, if_true, hnot, Bool.false_eq_true, if_false]
      exact ⟨_, rfl, hsend, hbefore⟩
  | false =>
    have hnone : ¬ ((s.iState = .offer ∨ iPipeTry cfg s i = true) ∧ i.pimemReqReady = true) := by
      rintro ⟨hx | hx, -⟩
      · exact hno hx
      · simp [iPipeTry, hhit] at hx
    obtain ⟨-, hrun, hown, -⟩ := of_laneAcceptOk hok
    have hctx : contextFire cfg s i = false := by simp [contextFire, contextReady, quiescent, hv]
    have hout := outcome_unowned hc h hrst hrun hown hctx (fetchAccess i.imemReqAddr) (by
      intro hl hq
      have hslow := hc.slow_i.2 ⟨by simp [route_of_lookup hc hown hl], hq.symm⟩
      rcases iState_of_iAccept ha with hx | hx <;> simp [hslow] at hx)
    rw [step_run hrst] at hout
    have hlane : laneAccess (runState cfg s i) true = fetchAccess i.imemReqAddr := by
      simp [laneAccess, hea, fetchAccess]
    have hopen : outcome cfg (runState cfg s i).arch (laneAccess (runState cfg s i) true) =
        FetchTaken.outcome cfg ⟨i.imemReqAddr, s.arch⟩ := by
      rw [hlane, hout]
      rfl
    rw [if_neg hnone]
    cases hch : chooseInstruction cfg s i <;>
      simp only [iAcceptState, hhit, hch, Bool.false_eq_true, if_false, if_true] <;>
      exact ⟨rfl, trivial, hre, _, rfl, hea.symm, hopen⟩

include hc hrst in
/-- An edge that accepts nothing and takes no answer passes no more than a held access. -/
theorem fetchEdge_quiet (ha : iAccept cfg s i = false) (hs : s.iState ≠ .response)
    (hr : s.route ≠ .ifetchFaultResponse) : fetchEdge cfg s i t =
      t.add none (if s.iState = .offer ∧ i.pimemReqReady = true then some (heldFetchAccess s)
        else none) none none := by
  obtain ⟨hfin, herr, href⟩ := @not_iFinish cfg s i hs
  have hsent : fetchSent cfg s i =
      if s.iState = .offer ∧ i.pimemReqReady = true then some (heldFetchAccess s) else none := by
    simp only [fetchSent_eq hrst, not_iPipeTry ha, Bool.false_eq_true, or_false]
    split_ifs with hx
    · simp [pimemReq, hx, heldFetchAccess]
    · rfl
  simp [fetchEdge, fetchTaken, ha, hsent, fetchAnswered_eq hrst, hfin, herr, href,
    fetchGiven_eq hc hrst, hr]

include hc h hrst in
theorem fetch_idle (hs : s.iState = .idle) (hr : Repeats cfg s)
    (hp : Paired (FetchServed cfg) t qs as bs) (ho : FetchOpen cfg s qs as bs) :
    FetchPaired cfg (runState cfg s i) (fetchEdge cfg s i t) := by
  simp only [FetchOpen, hs] at ho
  obtain ⟨rfl, rfl, rfl, hre⟩ := ho
  have hroute := (not_iRouted hc (by simp [hs])).2
  obtain ⟨hfin, herr, href⟩ := @not_iFinish cfg s i (by simp [hs])
  have hre' : (runState cfg s i).iRefetch = false := by simp [runState, hre, href]
  cases ha : iAccept cfg s i with
  | false =>
    rw [fetchEdge_quiet hc hrst ha (by simp [hs]) hroute]
    refine ⟨[], [], [], by simpa [hs] using hp, ?_⟩
    have hnext : (runState cfg s i).iState = .idle := by simp [runState, nextIState, hs, ha]
    simp [FetchOpen, hnext, hre']
  | true =>
    have hopen := hp.open (some ⟨i.imemReqAddr, s.arch⟩) (fetchSent cfg s i) none
    have hedge : Paired (FetchServed cfg) (fetchEdge cfg s i t) [⟨i.imemReqAddr, s.arch⟩]
        (fetchSent cfg s i).toList [] := by
      simpa [fetchEdge, fetchTaken, ha, fetchAnswered_eq hrst, hfin, herr, href,
        fetchGiven_eq hc hrst, hroute] using hopen
    exact ⟨_, _, _, hedge, open_of_iAccept hc h hrst hr ha hre'⟩

include hc h hrst in
/-- A lane whose fetch waits or is translated keeps it. -/
theorem open_of_iBusy (hs : s.iState = .wait ∨ s.iState = .slow)
    (hs' : (runState cfg s i).iState = .wait ∨ (runState cfg s i).iState = .slow)
    (ho : FetchOpen cfg s qs as bs) : FetchOpen cfg (runState cfg s i) qs as bs := by
  have hopen : as = [] ∧ bs = [] ∧ s.iRefetch = false ∧ ∃ q, qs = [q] ∧ q.addr = s.iEa ∧
      outcome cfg s.arch (laneAccess s true) = q.outcome cfg := by
    rcases hs with hx | hx <;> simpa [FetchOpen, hx] using ho
  obtain ⟨rfl, rfl, hre, q, rfl, hea, hout⟩ := hopen
  have hb : lanesIdle s = false := by
    rcases hs with hx | hx <;> simp [lanesIdle, hx]
  have hnr : s.iState ≠ .response := by rcases hs with hx | hx <;> simp [hx]
  have ha : iAccept cfg s i = false := by
    rcases hs with hx | hx <;> exact not_iAccept (by simp [hx]) (by simp [hx])
  obtain ⟨-, -, href⟩ := @not_iFinish cfg s i hnr
  have hre' : (runState cfg s i).iRefetch = false := by simp [runState, hre, href]
  have hacc : (runState cfg s i).iEa = s.iEa ∧
      laneAccess (runState cfg s i) true = laneAccess s true := by
    simp [laneAccess, runState, ha]
  have hstep := outcome_unowned hc h hrst (hc.is_running hb) (hc.owner_none hb)
    (contextFire_of_busy hb) (laneAccess s true) (by
      intro hl hq
      have hq' : s.request.instruction = true := hq.symm
      rw [slowAccess, hq'])
  rw [step_run hrst] at hstep
  have hopen' : outcome cfg (runState cfg s i).arch (laneAccess (runState cfg s i) true) =
      q.outcome cfg := by
    rw [hacc.2, hstep, hout]
  rcases hs' with hx | hx <;> simp only [FetchOpen, hx] <;>
    exact ⟨trivial, trivial, hre', q, rfl, hea.trans hacc.1.symm, hopen'⟩

include hc h hrst in
theorem fetch_wait (hs : s.iState = .wait) (hp : Paired (FetchServed cfg) t qs as bs)
    (ho : FetchOpen cfg s qs as bs) :
    FetchPaired cfg (runState cfg s i) (fetchEdge cfg s i t) := by
  have ha : iAccept cfg s i = false := not_iAccept (by simp [hs]) (by simp [hs])
  have hroute := (not_iRouted hc (by simp [hs])).2
  rw [fetchEdge_quiet hc hrst ha (by simp [hs]) hroute]
  refine ⟨qs, as, bs, by simpa [hs] using hp, ?_⟩
  refine open_of_iBusy hc h hrst (Or.inl hs) ?_ ho
  cases hch : chooseInstruction cfg s i <;> simp [runState, nextIState, hs, hch]

include hc h hrst in
theorem fetch_slow (hs : s.iState = .slow) (hp : Paired (FetchServed cfg) t qs as bs)
    (ho : FetchOpen cfg s qs as bs) :
    FetchPaired cfg (runState cfg s i) (fetchEdge cfg s i t) := by
  have ha : iAccept cfg s i = false := not_iAccept (by simp [hs]) (by simp [hs])
  obtain ⟨hfin, herr, href⟩ := @not_iFinish cfg s i (by simp [hs])
  have hq := (hc.slow_i.1 hs).2
  have hslow : slowAccess s = laneAccess s true := by rw [slowAccess, hq]
  have hopen : as = [] ∧ bs = [] ∧ s.iRefetch = false ∧ ∃ q, qs = [q] ∧ q.addr = s.iEa ∧
      outcome cfg s.arch (laneAccess s true) = q.outcome cfg := by
    simpa [FetchOpen, hs] using ho
  obtain ⟨rfl, rfl, hre, q, rfl, hea, hout⟩ := hopen
  have hre' : (runState cfg s i).iRefetch = false := by simp [runState, hre, href]
  by_cases hfault : s.route = .ifetchFaultResponse ∧ i.imemRspReady = true
  · -- the denial is delivered
    have hone : FetchServed cfg q [] [] (fetchHeld cfg s) := by
      apply FetchServed.denied
      rw [← hout, ← hslow]
      exact h.heldFetch hfault.1
    have hclose := hp.close (n := none) (a := none) (b := none) hone rfl rfl rfl
    have hno : routeAllow s = false := by simp [routeAllow, batReply, pageReply, hfault.1]
    have hedge : Paired (FetchServed cfg) (fetchEdge cfg s i t) [] [] [] := by
      simpa [fetchEdge, fetchTaken, ha, fetchSent_eq hrst, not_iPipeTry ha, hs,
        fetchAnswered_eq hrst, hfin, herr, href, fetchGiven_eq hc hrst, hfault] using hclose
    have hnext : (runState cfg s i).iState = .idle := by
      simp [runState, nextIState, hs, hno, hfault]
    exact ⟨[], [], [], hedge, by simp [FetchOpen, hnext, hre']⟩
  · have hsame : Paired (FetchServed cfg) (fetchEdge cfg s i t) [q] [] [] := by
      simpa [fetchEdge, fetchTaken, ha, fetchSent_eq hrst, not_iPipeTry ha, hs,
        fetchAnswered_eq hrst, hfin, herr, href, fetchGiven_eq hc hrst, hfault] using hp
    refine ⟨[q], [], [], hsame, ?_⟩
    by_cases hallow : routeAllow s = true
    · have hnext : (runState cfg s i).iState = .offer := by
        simp [runState, nextIState, hs, hallow, hq]
      have hacc : heldFetchAccess (runState cfg s i) = ⟨routePa s, routeWimg s⟩ ∧
          (runState cfg s i).iEsa = routeEsa s := by
        simp [heldFetchAccess, runState, hallow, hq]
      have hroute := outcome_of_routeAllow h hallow
      rw [hslow, hout] at hroute
      simp only [FetchOpen, hnext, FetchBefore, hre', Bool.false_eq_true, if_false, hacc.1, hacc.2]
      exact ⟨q, rfl, hroute, trivial, trivial⟩
    · rw [Bool.not_eq_true] at hallow
      refine open_of_iBusy hc h hrst (Or.inr hs) (Or.inr ?_) ho
      simpa [runState, nextIState, hs, hallow] using hfault

include hc hrst in
theorem fetch_offer (hs : s.iState = .offer) (hp : Paired (FetchServed cfg) t qs as bs)
    (ho : FetchOpen cfg s qs as bs) :
    FetchPaired cfg (runState cfg s i) (fetchEdge cfg s i t) := by
  have ha : iAccept cfg s i = false := not_iAccept (by simp [hs]) (by simp [hs])
  have hroute := (not_iRouted hc (by simp [hs])).2
  obtain ⟨hfin, -, href⟩ := @not_iFinish cfg s i (by simp [hs])
  obtain ⟨hacc, hesa⟩ := iHeld_of_keep (i := i) hc ha (by simp [hs])
  have hre' : (runState cfg s i).iRefetch = s.iRefetch := by simp [runState, href, hfin]
  simp only [FetchOpen, hs] at ho
  obtain ⟨q, rfl, hsend, hbefore⟩ := ho
  have hbefore' : FetchBefore cfg (runState cfg s i) as bs := by
    simpa only [FetchBefore, hre', hacc] using hbefore
  rw [fetchEdge_quiet hc hrst ha (by simp [hs]) hroute]
  cases hready : i.pimemReqReady with
  | false =>
    refine ⟨[q], as, bs, by simpa [hs] using hp, ?_⟩
    have hnext : (runState cfg s i).iState = .offer := by
      simp [runState, nextIState, hs, hready]
    simp only [FetchOpen, hnext, hacc, hesa]
    exact ⟨q, rfl, hsend, hbefore'⟩
  | true =>
    have hopen := hp.open none (some (heldFetchAccess s)) none
    refine ⟨[q], as ++ [heldFetchAccess s], bs, by simpa [hs] using hopen, ?_⟩
    have hnext : (runState cfg s i).iState = .response := by
      simp [runState, nextIState, hs, hready]
    simp only [FetchOpen, hnext, hacc, hesa]
    exact ⟨q, as, rfl, hsend, rfl, hbefore'⟩

/-- The answer that finishes a fetch. -/
theorem fetchServed_of_finish {q : FetchTaken} {before : List FetchAccess}
    (hfin : iFinish cfg s i = true) (hsend : FetchSends cfg q (heldFetchAccess s) s.iEsa)
    (hbefore : FetchBefore cfg s before bs) :
    FetchServed cfg q (before ++ [heldFetchAccess s]) (bs ++ [i.pimemRsp])
      (fetchReply cfg s.iEsa s.iRefetch i.pimemRsp) := by
  obtain ⟨hs, hv, href, herr, -⟩ := of_iFinish hfin
  unfold FetchBefore at hbefore
  cases hre : s.iRefetch with
  | false =>
    simp only [hre, Bool.false_eq_true, if_false] at hbefore
    obtain ⟨rfl, rfl⟩ := hbefore
    apply FetchServed.sent hsend
    · intro hr
      simp only [Config.refetches, Bool.and_eq_true] at hr
      simpa [iRefetchFire, hr, hs, hv, hre] using href
    · intro hm
      simpa [iError, hm, hs, hv] using herr
  | true =>
    simp only [hre, if_true] at hbefore
    obtain ⟨rfl, b, rfl, hb, hr⟩ := hbefore
    exact FetchServed.again hsend hr hb

include hc h hrst in
theorem fetch_response (hs : s.iState = .response) (hr : Repeats cfg s)
    (hp : Paired (FetchServed cfg) t qs as bs) (ho : FetchOpen cfg s qs as bs) :
    FetchPaired cfg (runState cfg s i) (fetchEdge cfg s i t) := by
  have hroute := (not_iRouted hc (by simp [hs])).2
  simp only [FetchOpen, hs] at ho
  obtain ⟨q, before, rfl, hsend, rfl, hbefore⟩ := ho
  by_cases hfin : iFinish cfg s i = true
  · obtain ⟨-, -, href, herr, -⟩ := of_iFinish hfin
    have hone := fetchServed_of_finish hfin hsend hbefore
    have hre' : (runState cfg s i).iRefetch = false := by simp [runState, href, hfin]
    cases ha : iAccept cfg s i with
    | false =>
      have hclose := hp.close (n := none) (a := none) (b := some i.pimemRsp) hone rfl rfl
        (List.append_nil _).symm
      have hedge : Paired (FetchServed cfg) (fetchEdge cfg s i t) [] [] [] := by
        simpa [fetchEdge, fetchTaken, ha, fetchSent_eq hrst, not_iPipeTry ha, hs,
          fetchAnswered_eq hrst, hfin, fetchGiven_eq hc hrst] using hclose
      have hnext : (runState cfg s i).iState = .idle := by
        simp [runState, nextIState, hs, herr, href, ha, hfin]
      exact ⟨[], [], [], hedge, by simp [FetchOpen, hnext, hre']⟩
    | true =>
      have hclose := hp.close (n := some ⟨i.imemReqAddr, s.arch⟩) (a := fetchSent cfg s i)
        (b := some i.pimemRsp) hone rfl rfl (List.append_nil _).symm
      have hedge : Paired (FetchServed cfg) (fetchEdge cfg s i t) [⟨i.imemReqAddr, s.arch⟩]
          (fetchSent cfg s i).toList [] := by
        simpa [fetchEdge, fetchTaken, ha, fetchAnswered_eq hrst, hfin,
          fetchGiven_eq hc hrst] using hclose
      exact ⟨_, _, _, hedge, open_of_iAccept hc h hrst hr ha hre'⟩
  · rw [Bool.not_eq_true] at hfin
    have ha : iAccept cfg s i = false := by
      rw [← Bool.not_eq_true]
      intro ha
      rcases (of_iAccept ha).2.2 with hx | hx
      · rw [hs] at hx
        cases hx
      · rw [hfin] at hx
        cases hx
    obtain ⟨hacc, hesa⟩ := iHeld_of_keep (i := i) hc ha (by simp [hs])
    by_cases herr : iError cfg s i = true
    · -- the lane stops
      have hopen := hp.open none none (some i.pimemRsp)
      have herr' := herr
      simp only [iError, Bool.and_eq_true, Bool.not_eq_true'] at herr'
      obtain ⟨⟨⟨-, hm⟩, -⟩, hb⟩ := herr'
      have hno : before = [] ∧ bs = [] := by
        unfold FetchBefore at hbefore
        split_ifs at hbefore
        · obtain ⟨-, b, -, -, hre⟩ := hbefore
          simp [Config.refetches, hm] at hre
        · exact hbefore
      obtain ⟨rfl, rfl⟩ := hno
      have hedge : Paired (FetchServed cfg) (fetchEdge cfg s i t) [q] [heldFetchAccess s]
          [i.pimemRsp] := by
        simpa [fetchEdge, fetchTaken, ha, fetchSent_eq hrst, not_iPipeTry ha, hs,
          fetchAnswered_eq hrst, herr, fetchGiven_eq hc hrst, hfin, hroute] using hopen
      have hnext : (runState cfg s i).iState = .fatal := by simp [runState, nextIState, hs, herr]
      refine ⟨_, _, _, hedge, ?_⟩
      simp only [FetchOpen, hnext, hacc, hesa]
      exact ⟨q, _, rfl, hsend, trivial, rfl, hb, hm⟩
    · rw [Bool.not_eq_true] at herr
      by_cases href : iRefetchFire cfg s i = true
      · -- the fetch is made once more
        have hopen := hp.open none none (some i.pimemRsp)
        have href' := href
        simp only [iRefetchFire, Bool.and_eq_true, Bool.not_eq_true'] at href'
        obtain ⟨⟨⟨⟨⟨htea, hm⟩, -⟩, -⟩, hb⟩, hre⟩ := href'
        simp only [FetchBefore, hre, Bool.false_eq_true, if_false] at hbefore
        obtain ⟨rfl, rfl⟩ := hbefore
        have hedge : Paired (FetchServed cfg) (fetchEdge cfg s i t) [q] [heldFetchAccess s]
            [i.pimemRsp] := by
          simpa [fetchEdge, fetchTaken, ha, fetchSent_eq hrst, not_iPipeTry ha, hs,
            fetchAnswered_eq hrst, href, fetchGiven_eq hc hrst, hfin, hroute] using hopen
        have hnext : (runState cfg s i).iState = .offer := by
          simp [runState, nextIState, hs, herr, href]
        have hre' : (runState cfg s i).iRefetch = true := by simp [runState, href]
        refine ⟨_, _, _, hedge, ?_⟩
        simp only [FetchOpen, hnext, hacc, hesa, FetchBefore, hre', if_true]
        exact ⟨q, rfl, hsend, trivial, _, rfl, hb, by simp [Config.refetches, htea, hm]⟩
      · rw [Bool.not_eq_true] at href
        have hedge : Paired (FetchServed cfg) (fetchEdge cfg s i t) [q]
            (before ++ [heldFetchAccess s]) bs := by
          simpa [fetchEdge, fetchTaken, ha, fetchSent_eq hrst, not_iPipeTry ha, hs,
            fetchAnswered_eq hrst, herr, href, fetchGiven_eq hc hrst, hfin, hroute] using hp
        have hnext : (runState cfg s i).iState = .response := by
          simp [runState, nextIState, hs, herr, href, ha, hfin]
        have hre' : (runState cfg s i).iRefetch = s.iRefetch := by simp [runState, href, hfin]
        refine ⟨_, _, _, hedge, ?_⟩
        simp only [FetchOpen, hnext, hacc, hesa, FetchBefore, hre']
        exact ⟨q, before, rfl, hsend, rfl, hbefore⟩

include hc hrst in
theorem fetch_fatal (hs : s.iState = .fatal) (hp : Paired (FetchServed cfg) t qs as bs)
    (ho : FetchOpen cfg s qs as bs) :
    FetchPaired cfg (runState cfg s i) (fetchEdge cfg s i t) := by
  have ha : iAccept cfg s i = false := not_iAccept (by simp [hs]) (by simp [hs])
  have hroute := (not_iRouted hc (by simp [hs])).2
  obtain ⟨hacc, hesa⟩ := iHeld_of_keep (i := i) hc ha (by simp [hs])
  rw [fetchEdge_quiet hc hrst ha (by simp [hs]) hroute]
  refine ⟨qs, as, bs, by simpa [hs] using hp, ?_⟩
  have hnext : (runState cfg s i).iState = .fatal := by simp [runState, nextIState, hs]
  simp only [FetchOpen, hnext, hacc, hesa]
  simpa only [FetchOpen, hs] using ho

/-- **The fetch lane's traffic belongs together**, over an edge. -/
theorem fetch_step (hc : Ctrl cfg s) (h : Seq cfg s) (hr : Repeats cfg s)
    (hrst : i.rstN = true) (ht : FetchPaired cfg s t) :
    FetchPaired cfg (runState cfg s i) (fetchEdge cfg s i t) := by
  obtain ⟨qs, as, bs, hp, ho⟩ := ht
  cases hs : s.iState with
  | idle => exact fetch_idle hc h hrst hs hr hp ho
  | wait => exact fetch_wait hc h hrst hs hp ho
  | slow => exact fetch_slow hc h hrst hs hp ho
  | offer => exact fetch_offer hc hrst hs hp ho
  | response => exact fetch_response hc h hrst hs hr hp ho
  | fatal => exact fetch_fatal hc hrst hs hp ho

end Step

end Router
end SloPPC603
