import SloPPC603.Router.Repeats

/-!
# The data lane

The data lane keeps up to two accepted requests: one on its way through the translation
sequence or waiting for the physical port, or one or two sent there and not yet
answered.

* `DataOpen` — the open requests of the data lane, by its state.
* `data_step` — an edge of the lane passes traffic that belongs together.
-/

namespace SloPPC603
namespace Router

open Clocked

/-! ## The open requests -/

/-- The lane holds the request. -/
structure DataHeld (s : State) (q : DataReq) : Prop where
  write : q.write = s.dWrite
  addr : q.addr = s.dEa
  wdata : q.wdata = s.dWdata
  wstrb : q.wstrb = s.dWstrb
  kind : q.kind = s.dKind
  fp : q.fp = s.dFp
  ds : s.dDs = false

/-- The access the lane holds for the physical port. -/
def heldDataAccess (s : State) : DataAccess :=
  { write := s.dWrite, addr := s.dPa, wdata := s.dWdata, wstrb := s.dWstrb, wimg := s.dWimg
    ds := s.dDs, dsTag := s.dDsTag }

/-- What the data lane has open: the requests, and the accesses they have made. -/
def DataOpen (cfg : Config) (s : State) (qs : List DataTaken) (as : List DataAccess) : Prop :=
  match s.dState with
  | .idle => qs = [] ∧ as = []
  | .wait | .slow =>
    as = [] ∧ ∃ q, qs = [q] ∧ DataHeld s q.req ∧
      outcome cfg s.arch (laneAccess s false) = q.outcome cfg
  | .offer => as = [] ∧ ∃ q, qs = [q] ∧ DataSends cfg q (heldDataAccess s)
  | .response =>
    if s.dSecond then
      ∃ q q' a a', qs = [q, q'] ∧ as = [a, a'] ∧ DataSends cfg q a ∧ DataSends cfg q' a' ∧
        a.ds = false ∧ a'.ds = false
    else ∃ q a, qs = [q] ∧ as = [a] ∧ DataSends cfg q a ∧ a.ds = s.dDs
  | .fatal => False

/-- The data lane's traffic belongs together. -/
def DataPaired (cfg : Config) (s : State)
    (t : Traffic DataTaken DataAccess DataAnswer DataResponse) : Prop :=
  ∃ qs as, Paired (DataServed cfg) t qs as [] ∧ DataOpen cfg s qs as

/-! ## What an edge passes -/

section Edge

variable {cfg : Config} {s : State} {i : Input}

theorem dataSent_eq (hrst : i.rstN = true) : dataSent cfg s i =
    if (s.dState = .offer ∧ i.pdmemReqReady = true) ∨ dPipeAccept cfg s i = true then
      some (pdmemReq cfg s i) else none := by
  simp only [dataSent, pdmemReqValid, dPipeAccept, hrst, Bool.true_and, Bool.and_eq_true,
    Bool.or_eq_true, decide_eq_true_eq, or_and_right]

theorem dataAnswered_eq (hrst : i.rstN = true) : dataAnswered s i =
    if dFinish s i then some i.pdmemRsp else none := by
  have heq : (i.pdmemRspValid && pdmemRspReady s i) = dFinish s i := by
    simp only [pdmemRspReady, dFinish, hrst, Bool.true_and]
    cases i.pdmemRspValid <;> simp
  rw [dataAnswered, heq]

/-- A response is delivered as the port's answer is taken, or from the fault state. -/
theorem dataGiven_eq (hc : Ctrl cfg s) (hrst : i.rstN = true) : dataGiven cfg s i =
    if dFinish s i then some (dataReply cfg s.dDs i.pdmemRsp)
    else if s.route = .dataFaultResponse ∧ i.dmemRspReady = true then some (dataHeld cfg s)
    else none := by
  by_cases hs : s.dState = .response
  · have hr : s.route ≠ .dataFaultResponse := by
      intro hr
      have hd := hc.slow_d.2 ⟨by simp [hr], hc.fault_d hr⟩
      rw [hs] at hd
      cases hd
    have hrsp : dmemRsp cfg s i = dataReply cfg s.dDs i.pdmemRsp := by
      simp only [dmemRsp, dmemRspFault, hs, if_true, dataReply]
      split_ifs <;> simp_all
    simp only [dataGiven, dmemRspValid, hs, hrst, dFinish, hrsp, hr, false_and, if_false]
    simp
  · have hrsp : dmemRsp cfg s i = dataHeld cfg s := by
      simp [dmemRsp, dmemRspFault, hs, dataHeld]
    simp only [dataGiven, dmemRspValid, hs, hrst, dFinish, hrsp]
    simp

/-- Only the slow lane is routed. -/
theorem not_routed (hc : Ctrl cfg s) (hs : s.dState ≠ .slow) :
    (routeAllow s && !s.request.instruction) = false ∧ dsRouteFire cfg s = false ∧
      s.route ≠ .dataFaultResponse := by
  refine ⟨?_, ?_, ?_⟩
  · rw [← Bool.not_eq_true, Bool.and_eq_true, Bool.not_eq_true']
    rintro ⟨ha, hq⟩
    exact hs (hc.slow_d.2 ⟨route_of_routeAllow ha, hq⟩)
  · rw [← Bool.not_eq_true]
    intro hd
    have hroute : s.route ≠ .idle := by
      intro hr
      simp [dsRouteFire, pageReply, hr] at hd
    exact hs (hc.slow_d.2 ⟨hroute, dsRouteFire_data hd⟩)
  · intro hr
    exact hs (hc.slow_d.2 ⟨by simp [hr], hc.fault_d hr⟩)

theorem not_dsRouteFire_of_routeAllow (ha : routeAllow s = true) : dsRouteFire cfg s = false := by
  rw [← Bool.not_eq_true]
  intro hd
  simp only [dsRouteFire, dsRoute, dsCandidate, pageReply, Bool.and_eq_true, decide_eq_true_eq,
    Bool.not_eq_true'] at hd
  obtain ⟨⟨hr, -⟩, ⟨⟨⟨-, hno⟩, -⟩, -⟩, -⟩ := hd
  simp [routeAllow, batReply, pageReply, hr, hno] at ha

/-- What the lane holds after it has accepted a request. -/
theorem held_of_accept (hc : Ctrl cfg s) (ha : dAccept cfg s i = true) :
    DataHeld (runState cfg s i) i.dmemReq ∧ (runState cfg s i).dPa = dHitPa cfg s i ∧
      (runState cfg s i).dWimg = dHitWimg cfg s i ∧ (runState cfg s i).dDs = false := by
  have hs : s.dState ≠ .slow := by
    rcases dState_of_dAccept ha with hx | hx <;> simp [hx]
  obtain ⟨hroute, hds, -⟩ := not_routed hc hs
  refine ⟨?_, ?_, ?_, ?_⟩
  · constructor <;> simp [runState, ha, hds]
  all_goals simp [runState, ha, hroute, hds]

/-- What it holds when it has not. -/
theorem held_of_keep (hc : Ctrl cfg s) (ha : dAccept cfg s i = false) (hs : s.dState ≠ .slow) :
    heldDataAccess (runState cfg s i) = heldDataAccess s := by
  obtain ⟨hroute, hds, -⟩ := not_routed hc hs
  simp [heldDataAccess, runState, ha, hroute, hds]

theorem dataHeld_of_keep (ha : dAccept cfg s i = false) (hds : dsRouteFire cfg s = false)
    {q : DataReq} (h : DataHeld s q) : DataHeld (runState cfg s i) q ∧
      laneAccess (runState cfg s i) false = laneAccess s false := by
  refine ⟨?_, ?_⟩
  · constructor <;>
      simp [runState, ha, hds, h.write, h.addr, h.wdata, h.wstrb, h.kind, h.fp, h.ds]
  · simp [laneAccess, runState, ha]

/-- The request of a lane just loaded. -/
theorem laneAccess_of_held {q : DataReq} (h : DataHeld s q) : laneAccess s false = q.access := by
  simp [laneAccess, DataReq.access, h.write, h.addr, h.kind, h.fp]

/-- A hit sends the request as its outcome says. -/
theorem sends_of_hit (hr : Repeats cfg s) (hproj : ProjectionAgrees cfg i)
    (hv : i.dmemReqValid = true) (hhit : dHit cfg s i = true) (tag : BitVec 26) :
    DataSends cfg ⟨i.dmemReq, s.arch⟩
      { write := i.dmemReq.write, addr := dHitPa cfg s i, wdata := i.dmemReq.wdata
        wstrb := i.dmemReq.wstrb, wimg := dHitWimg cfg s i, ds := false, dsTag := tag } :=
  ⟨rfl, rfl, rfl, Or.inl ⟨.denied, dHit_outcome hr hv hproj hhit, rfl⟩⟩

/-- A pipelined request is sent on the edge that accepts it. -/
theorem sends_of_pipe (hr : Repeats cfg s) (hproj : ProjectionAgrees cfg i)
    (hp : dPipeAccept cfg s i = true) (hs : s.dState ≠ .offer) :
    DataSends cfg ⟨i.dmemReq, s.arch⟩ (pdmemReq cfg s i) ∧ (pdmemReq cfg s i).ds = false := by
  simp only [dPipeAccept, Bool.and_eq_true] at hp
  have hpipe : cfg.enableDataPipeline = true := by
    have h := hp.1
    simp only [dPipeTry, Bool.and_eq_true] at h
    exact h.1.1.1.1.1.1
  obtain ⟨hv, hhit, -⟩ := of_dPipeTry hp.1
  have hreq : pdmemReq cfg s i =
      { write := i.dmemReq.write, addr := dHitPa cfg s i, wdata := i.dmemReq.wdata
        wstrb := i.dmemReq.wstrb, wimg := dHitWimg cfg s i, ds := false, dsTag := s.dDsTag } := by
    simp [pdmemReq, dPipeNow, hpipe, hs]
  rw [hreq]
  exact ⟨sends_of_hit hr hproj hv hhit s.dDsTag, rfl⟩

end Edge

/-! ## Over an edge -/

section Step

variable {cfg : Config} {s : State} {i : Input} (hc : Ctrl cfg s) (h : Seq cfg s)
  (hrst : i.rstN = true)

/-- What an edge of the lane adds to its traffic. -/
def dataEdge (cfg : Config) (s : State) (i : Input)
    (t : Traffic DataTaken DataAccess DataAnswer DataResponse) :
    Traffic DataTaken DataAccess DataAnswer DataResponse :=
  t.add (dataTaken cfg s i) (dataSent cfg s i) (dataAnswered s i) (dataGiven cfg s i)

theorem not_dPipeAccept (ha : dAccept cfg s i = false) : dPipeAccept cfg s i = false := by
  rw [← Bool.not_eq_true]
  intro hp
  rw [dAccept_of_dPipeAccept hp] at ha
  cases ha

theorem not_dAccept (hs : s.dState ≠ .idle) (hs' : s.dState ≠ .response) :
    dAccept cfg s i = false := by
  rw [← Bool.not_eq_true]
  intro ha
  rcases dState_of_dAccept ha with hx | hx
  · exact hs hx
  · exact hs' hx

theorem not_dFinish (hs : s.dState ≠ .response) : dFinish s i = false := by
  simp [dFinish, hs]

include hc in
theorem not_dSecond (hs : s.dState ≠ .response) : s.dSecond = false := by
  rw [← Bool.not_eq_true]
  intro hsec
  exact hs (hc.second hsec).1

include hc h hrst in
/-- A request accepted into the lane is open. -/
theorem open_of_accept (hr : Repeats cfg s) (hproj : ProjectionAgrees cfg i)
    (ha : dAccept cfg s i = true) (hp : dPipeAccept cfg s i = false) :
    DataOpen cfg (runState cfg s i) [⟨i.dmemReq, s.arch⟩] [] := by
  obtain ⟨hheld, hpa, hwimg, hds⟩ := held_of_accept hc ha
  obtain ⟨hv, hok, -⟩ := of_dAccept ha
  have hnext : (runState cfg s i).dState = dAcceptState cfg s i := by
    show nextDState cfg s i = _
    rcases dState_of_dAccept ha with hx | hx <;> simp [nextDState, hx, ha, hp]
  unfold DataOpen
  rw [hnext]
  cases hhit : dHit cfg s i with
  | true =>
    simp only [dAcceptState, hhit, if_true]
    refine ⟨trivial, _, rfl, ?_⟩
    have hsend := sends_of_hit hr hproj hv hhit (runState cfg s i).dDsTag
    have heq : heldDataAccess (runState cfg s i) =
        { write := i.dmemReq.write, addr := dHitPa cfg s i, wdata := i.dmemReq.wdata
          wstrb := i.dmemReq.wstrb, wimg := dHitWimg cfg s i, ds := false
          dsTag := (runState cfg s i).dDsTag } := by
      simp only [heldDataAccess, hpa, hwimg, hds, ← hheld.write, ← hheld.wdata, ← hheld.wstrb]
    rw [heq]
    exact hsend
  | false =>
    obtain ⟨-, hrun, hown, -⟩ := of_laneAcceptOk hok
    have hctx : contextFire cfg s i = false := by simp [contextFire, contextReady, quiescent, hv]
    have hout := outcome_unowned hc h hrst hrun hown hctx i.dmemReq.access (by
      intro hl hq
      have hslow := hc.slow_d.2 ⟨by simp [route_of_lookup hc hown hl], hq.symm⟩
      rcases dState_of_dAccept ha with hx | hx <;> simp [hslow] at hx)
    rw [step_run hrst] at hout
    have hopen : outcome cfg (runState cfg s i).arch (laneAccess (runState cfg s i) false) =
        DataTaken.outcome cfg ⟨i.dmemReq, s.arch⟩ := by
      rw [laneAccess_of_held hheld, hout]
      rfl
    cases hch : chooseData cfg s i <;>
      simp only [dAcceptState, hhit, hch, Bool.false_eq_true, if_false, if_true] <;>
      exact ⟨trivial, _, rfl, hheld, hopen⟩

variable {t : Traffic DataTaken DataAccess DataAnswer DataResponse} {qs : List DataTaken}
  {as : List DataAccess}

include hc h hrst in
theorem data_idle (hs : s.dState = .idle) (hr : Repeats cfg s) (hproj : ProjectionAgrees cfg i)
    (hp : Paired (DataServed cfg) t qs as []) (ho : DataOpen cfg s qs as) :
    DataPaired cfg (runState cfg s i) (dataEdge cfg s i t) := by
  simp only [DataOpen, hs] at ho
  obtain ⟨rfl, rfl⟩ := ho
  have hfin : dFinish s i = false := not_dFinish (by simp [hs])
  have hroute := (not_routed hc (by simp [hs])).2.2
  have hgiven : dataGiven cfg s i = none := by
    simp [dataGiven_eq hc hrst, hfin, hroute]
  have hans : dataAnswered s i = none := by simp [dataAnswered_eq hrst, hfin]
  simp only [dataEdge, hgiven, hans, dataSent_eq hrst, hs]
  cases ha : dAccept cfg s i with
  | false =>
    have hpipe := not_dPipeAccept ha
    refine ⟨[], [], by simpa [dataTaken, ha, hpipe] using hp, ?_⟩
    simp [DataOpen, runState, nextDState, hs, ha, hpipe]
  | true =>
    have hopen := hp.open (some ⟨i.dmemReq, s.arch⟩)
    cases hpipe : dPipeAccept cfg s i with
    | false =>
      refine ⟨_, _, by simpa [dataTaken, ha] using hopen none none, ?_⟩
      exact open_of_accept hc h hrst hr hproj ha hpipe
    | true =>
      obtain ⟨hsend, hds⟩ := sends_of_pipe hr hproj hpipe (by simp [hs])
      refine ⟨_, _, by simpa [dataTaken, ha] using hopen (some (pdmemReq cfg s i)) none, ?_⟩
      have hnext : (runState cfg s i).dState = .response := by
        simp [runState, nextDState, hs, hpipe]
      have hsec : (runState cfg s i).dSecond = false := by
        simp [runState, nextDSecond, hs, not_dSecond hc (by simp [hs] : s.dState ≠ .response)]
      simp only [DataOpen, hnext, hsec, Bool.false_eq_true, if_false, (held_of_accept hc ha).2.2.2]
      exact ⟨_, _, rfl, rfl, hsend, hds⟩

include hc h hrst in
/-- A lane whose request waits or is translated keeps it. -/
theorem open_of_busy (hs : s.dState = .wait ∨ s.dState = .slow)
    (hs' : (runState cfg s i).dState = .wait ∨ (runState cfg s i).dState = .slow)
    (ho : DataOpen cfg s qs as) : DataOpen cfg (runState cfg s i) qs as := by
  have hopen : as = [] ∧ ∃ q, qs = [q] ∧ DataHeld s q.req ∧
      outcome cfg s.arch (laneAccess s false) = q.outcome cfg := by
    rcases hs with hx | hx <;> simpa [DataOpen, hx] using ho
  obtain ⟨rfl, q, rfl, hheld, hout⟩ := hopen
  have hb : lanesIdle s = false := by
    rcases hs with hx | hx <;> simp [lanesIdle, hx]
  have ha : dAccept cfg s i = false := by
    rcases hs with hx | hx <;> exact not_dAccept (by simp [hx]) (by simp [hx])
  have hds : dsRouteFire cfg s = false := by
    rw [← Bool.not_eq_true]
    intro hds
    have hoffer : s.dState = .slow → (runState cfg s i).dState = .offer := by
      intro hx
      simp [runState, nextDState, hx, hds]
    rcases hs with hx | hx
    · rw [(not_routed hc (by simp [hx])).2.1] at hds
      exact absurd hds (by simp)
    · rw [hoffer hx] at hs'
      exact absurd hs' (by simp)
  obtain ⟨hheld', hacc⟩ := @dataHeld_of_keep cfg s i ha hds q.req hheld
  have hstep := outcome_unowned hc h hrst (hc.is_running hb) (hc.owner_none hb)
    (contextFire_of_busy hb) (laneAccess s false) (by
      intro hl hq
      have hq' : s.request.instruction = false := hq.symm
      rw [slowAccess, hq'])
  rw [step_run hrst] at hstep
  have hopen' : outcome cfg (runState cfg s i).arch (laneAccess (runState cfg s i) false) =
      q.outcome cfg := by
    rw [hacc, hstep, hout]
  rcases hs' with hx | hx <;> simp only [DataOpen, hx] <;>
    exact ⟨trivial, q, rfl, hheld', hopen'⟩

include hc h hrst in
theorem data_wait (hs : s.dState = .wait) (hp : Paired (DataServed cfg) t qs as [])
    (ho : DataOpen cfg s qs as) : DataPaired cfg (runState cfg s i) (dataEdge cfg s i t) := by
  have ha : dAccept cfg s i = false := not_dAccept (by simp [hs]) (by simp [hs])
  have hpipe := not_dPipeAccept ha
  have hfin : dFinish s i = false := not_dFinish (by simp [hs])
  have hroute := (not_routed hc (by simp [hs])).2.2
  refine ⟨qs, as, ?_, ?_⟩
  · simpa [dataEdge, dataTaken, ha, dataSent_eq hrst, hs, hpipe, dataAnswered_eq hrst, hfin,
      dataGiven_eq hc hrst, hroute] using hp
  · refine open_of_busy hc h hrst (Or.inl hs) ?_ ho
    cases hch : chooseData cfg s i <;> simp [runState, nextDState, hs, hch]

include hc h hrst in
theorem data_slow (hs : s.dState = .slow) (hp : Paired (DataServed cfg) t qs as [])
    (ho : DataOpen cfg s qs as) : DataPaired cfg (runState cfg s i) (dataEdge cfg s i t) := by
  have ha : dAccept cfg s i = false := not_dAccept (by simp [hs]) (by simp [hs])
  have hpipe := not_dPipeAccept ha
  have hfin : dFinish s i = false := not_dFinish (by simp [hs])
  have hq := (hc.slow_d.1 hs).2
  have hslow : slowAccess s = laneAccess s false := by rw [slowAccess, hq]
  have hopen : as = [] ∧ ∃ q, qs = [q] ∧ DataHeld s q.req ∧
      outcome cfg s.arch (laneAccess s false) = q.outcome cfg := by
    simpa [DataOpen, hs] using ho
  obtain ⟨rfl, q, rfl, hheld, hout⟩ := hopen
  by_cases hfault : s.route = .dataFaultResponse ∧ i.dmemRspReady = true
  · -- the denial is delivered
    have hone : DataServed cfg q [] [] (dataHeld cfg s) := by
      apply DataServed.denied
      rw [← hout, ← hslow]
      exact h.heldData hfault.1
    have hclose := hp.close (n := none) (a := none) (b := none) hone rfl rfl rfl
    have hno : routeAllow s = false ∧ dsRouteFire cfg s = false := by
      simp [routeAllow, batReply, pageReply, dsRouteFire, hfault.1]
    have hedge : Paired (DataServed cfg) (dataEdge cfg s i t) [] [] [] := by
      simpa [dataEdge, dataTaken, ha, dataSent_eq hrst, hs, hpipe, dataAnswered_eq hrst, hfin,
        dataGiven_eq hc hrst, hfault] using hclose
    refine ⟨[], [], hedge, ?_⟩
    simp [DataOpen, runState, nextDState, hs, hno, hfault]
  · have hsame : Paired (DataServed cfg) (dataEdge cfg s i t) [q] [] [] := by
      simpa [dataEdge, dataTaken, ha, dataSent_eq hrst, hs, hpipe, dataAnswered_eq hrst, hfin,
        dataGiven_eq hc hrst, hfault] using hp
    refine ⟨[q], [], hsame, ?_⟩
    by_cases hallow : routeAllow s = true
    · have hds := @not_dsRouteFire_of_routeAllow cfg s hallow
      have hnext : (runState cfg s i).dState = .offer := by
        simp [runState, nextDState, hs, hallow, hq]
      have hacc : heldDataAccess (runState cfg s i) =
          { write := s.dWrite, addr := routePa s, wdata := s.dWdata, wstrb := s.dWstrb
            wimg := routeWimg s, ds := s.dDs, dsTag := s.dDsTag } := by
        simp [heldDataAccess, runState, ha, hallow, hq, hds]
      simp only [DataOpen, hnext, hacc]
      have hroute := outcome_of_routeAllow h hallow
      rw [hslow, hout] at hroute
      exact ⟨trivial, q, rfl, hheld.write.symm, hheld.wdata.symm, hheld.wstrb.symm,
        Or.inl ⟨_, hroute, hheld.ds⟩⟩
    · rw [Bool.not_eq_true] at hallow
      by_cases hds : dsRouteFire cfg s = true
      · have hnext : (runState cfg s i).dState = .offer := by
          simp [runState, nextDState, hs, hds]
        have hacc : heldDataAccess (runState cfg s i) =
            { write := s.dWrite, addr := dsAddress s.pageSr s.dEa, wdata := s.dWdata
              wstrb := s.dWstrb, wimg := dsWimg, ds := true
              dsTag := dsTag s.request s.pageSr } := by
          simp [heldDataAccess, runState, ha, hallow, hds]
        simp only [DataOpen, hnext, hacc]
        have hroute := outcome_of_dsRouteFire h hds
        rw [hslow, hout] at hroute
        exact ⟨trivial, q, rfl, hheld.write.symm, hheld.wdata.symm, hheld.wstrb.symm,
          Or.inr ⟨hroute, rfl, rfl⟩⟩
      · rw [Bool.not_eq_true] at hds
        refine open_of_busy hc h hrst (Or.inr hs) (Or.inr ?_) ho
        simpa [runState, nextDState, hs, hallow, hds] using hfault

include hc hrst in
theorem data_offer (hs : s.dState = .offer) (hp : Paired (DataServed cfg) t qs as [])
    (ho : DataOpen cfg s qs as) : DataPaired cfg (runState cfg s i) (dataEdge cfg s i t) := by
  have ha : dAccept cfg s i = false := not_dAccept (by simp [hs]) (by simp [hs])
  have hpipe := not_dPipeAccept ha
  have hfin : dFinish s i = false := not_dFinish (by simp [hs])
  have hroute := (not_routed hc (by simp [hs])).2.2
  have hkeep := held_of_keep (i := i) hc ha (by simp [hs])
  simp only [DataOpen, hs] at ho
  obtain ⟨rfl, q, rfl, hsend⟩ := ho
  have hreq : pdmemReq cfg s i = heldDataAccess s := by
    simp [pdmemReq, dPipeNow, hs, heldDataAccess]
  have hopen := hp.open none
  simp only [dataEdge, dataTaken, ha, dataSent_eq hrst, hs, hpipe, dataAnswered_eq hrst, hfin,
    dataGiven_eq hc hrst, hroute, hreq]
  cases hready : i.pdmemReqReady with
  | false =>
    refine ⟨[q], [], by simpa using hp, ?_⟩
    have hnext : (runState cfg s i).dState = .offer := by
      simp [runState, nextDState, hs, hready]
    simp only [DataOpen, hnext, hkeep]
    exact ⟨trivial, q, rfl, hsend⟩
  | true =>
    refine ⟨[q], [heldDataAccess s], by simpa using hopen (some (heldDataAccess s)) none, ?_⟩
    have hnext : (runState cfg s i).dState = .response := by
      simp [runState, nextDState, hs, hready]
    have hsec : (runState cfg s i).dSecond = false := by
      simp [runState, nextDSecond, hs, not_dSecond hc (by simp [hs] : s.dState ≠ .response)]
    have hds : (runState cfg s i).dDs = s.dDs := congrArg DataAccess.ds hkeep
    simp only [DataOpen, hnext, hsec, Bool.false_eq_true, if_false, hds]
    exact ⟨q, _, rfl, rfl, hsend, rfl⟩

include hc h hrst in
/-- An edge of a lane with one answer outstanding. -/
theorem data_response_one (hs : s.dState = .response) (hsec : s.dSecond = false)
    (hr : Repeats cfg s) (hproj : ProjectionAgrees cfg i)
    (hp : Paired (DataServed cfg) t qs as []) (ho : DataOpen cfg s qs as) :
    DataPaired cfg (runState cfg s i) (dataEdge cfg s i t) := by
  have hroute := (not_routed hc (by simp [hs])).2.2
  simp only [DataOpen, hs, hsec, Bool.false_eq_true, if_false] at ho
  obtain ⟨q, a, rfl, rfl, hsend, hds⟩ := ho
  have hone : DataServed cfg q [a] [i.pdmemRsp] (dataReply cfg s.dDs i.pdmemRsp) := by
    rw [← hds]
    exact DataServed.sent hsend
  simp only [dataEdge, dataSent_eq hrst, hs, dataAnswered_eq hrst, dataGiven_eq hc hrst, hroute]
  cases ha : dAccept cfg s i with
  | false =>
    have hpipe := not_dPipeAccept ha
    have hds' : (runState cfg s i).dDs = s.dDs :=
      congrArg DataAccess.ds (held_of_keep (i := i) hc ha (by simp [hs]))
    cases hfin : dFinish s i with
    | false =>
      refine ⟨[q], [a], by simpa [dataTaken, ha, hpipe] using hp, ?_⟩
      have hnext : (runState cfg s i).dState = .response := by
        simp [runState, nextDState, hs, ha, hpipe, hfin]
      have hsec' : (runState cfg s i).dSecond = false := by
        simp [runState, nextDSecond, hs, hpipe, ha, hsec]
      simp only [DataOpen, hnext, hsec', Bool.false_eq_true, if_false, hds']
      exact ⟨q, a, rfl, rfl, hsend, hds⟩
    | true =>
      have hclose := hp.close (n := none) (a := none) (b := some i.pdmemRsp) hone rfl rfl rfl
      refine ⟨[], [], by simpa [dataTaken, ha, hpipe] using hclose, ?_⟩
      simp [DataOpen, runState, nextDState, hs, ha, hpipe, hfin, hsec]
  | true =>
    have hds' := (held_of_accept hc ha).2.2.2
    cases hpipe : dPipeAccept cfg s i with
    | false =>
      -- the lane takes another request as it gives the response
      have hfin : dFinish s i = true := by
        rcases (of_dAccept ha).2.2 with hx | ⟨-, hx | ⟨hx, -⟩⟩
        · rw [hpipe] at hx
          cases hx
        · rw [hs] at hx
          cases hx
        · exact hx
      have hclose := hp.close (n := some ⟨i.dmemReq, s.arch⟩) (a := none)
        (b := some i.pdmemRsp) hone rfl rfl rfl
      refine ⟨_, _, by simpa [dataTaken, ha, hfin] using hclose, ?_⟩
      exact open_of_accept hc h hrst hr hproj ha hpipe
    | true =>
      obtain ⟨hsend', hnew⟩ := sends_of_pipe hr hproj hpipe (by simp [hs])
      have hnext : (runState cfg s i).dState = .response := by
        simp [runState, nextDState, hs, hpipe]
      cases hfin : dFinish s i with
      | false =>
        have hopen := hp.open (some ⟨i.dmemReq, s.arch⟩) (some (pdmemReq cfg s i)) none
        refine ⟨_, _, by simpa [dataTaken, ha] using hopen, ?_⟩
        have hsec' : (runState cfg s i).dSecond = true := by
          simp [runState, nextDSecond, hs, hpipe, hfin]
        have hno : s.dDs = false := by
          simp only [dPipeAccept, Bool.and_eq_true] at hpipe
          rcases (of_dPipeTry hpipe.1).2.2.2.2 with hx | ⟨-, ⟨-, hx⟩ | hx⟩
          · rw [hs] at hx
            cases hx
          · exact hx
          · rw [hfin] at hx
            cases hx
        simp only [DataOpen, hnext, hsec', if_true]
        exact ⟨q, _, a, _, rfl, rfl, hsend, hsend', hds.trans hno, hnew⟩
      | true =>
        have hclose := hp.close (n := some ⟨i.dmemReq, s.arch⟩)
          (a := some (pdmemReq cfg s i)) (b := some i.pdmemRsp) hone rfl rfl rfl
        refine ⟨_, _, by simpa [dataTaken, ha] using hclose, ?_⟩
        have hsec' : (runState cfg s i).dSecond = false := by
          simp [runState, nextDSecond, hs, hpipe, hfin, hsec]
        simp only [DataOpen, hnext, hsec', Bool.false_eq_true, if_false, hds']
        exact ⟨_, _, rfl, rfl, hsend', hnew⟩

include hc hrst in
/-- An edge of a lane with two answers outstanding. -/
theorem data_response_two (hs : s.dState = .response) (hsec : s.dSecond = true)
    (hr : Repeats cfg s) (hproj : ProjectionAgrees cfg i)
    (hp : Paired (DataServed cfg) t qs as []) (ho : DataOpen cfg s qs as) :
    DataPaired cfg (runState cfg s i) (dataEdge cfg s i t) := by
  have hroute := (not_routed hc (by simp [hs])).2.2
  have hdd := (hc.second hsec).2
  simp only [DataOpen, hs, hsec, if_true] at ho
  obtain ⟨q, q', a, a', rfl, rfl, hsend, hsend', hds, hds'⟩ := ho
  have hone : DataServed cfg q [a] [i.pdmemRsp] (dataReply cfg s.dDs i.pdmemRsp) := by
    rw [hdd, ← hds]
    exact DataServed.sent hsend
  simp only [dataEdge, dataSent_eq hrst, hs, dataAnswered_eq hrst, dataGiven_eq hc hrst, hroute]
  cases ha : dAccept cfg s i with
  | false =>
    have hpipe := not_dPipeAccept ha
    have hkeep : (runState cfg s i).dDs = s.dDs :=
      congrArg DataAccess.ds (held_of_keep (i := i) hc ha (by simp [hs]))
    have hnext : (runState cfg s i).dState = .response := by
      simp [runState, nextDState, hs, ha, hpipe, hsec]
    cases hfin : dFinish s i with
    | false =>
      refine ⟨[q, q'], [a, a'], by simpa [dataTaken, ha, hpipe] using hp, ?_⟩
      have hsec' : (runState cfg s i).dSecond = true := by
        simp [runState, nextDSecond, hs, hpipe, ha, hsec, hfin]
      simp only [DataOpen, hnext, hsec', if_true]
      exact ⟨q, q', a, a', rfl, rfl, hsend, hsend', hds, hds'⟩
    | true =>
      have hclose := hp.close (n := none) (a := none) (b := some i.pdmemRsp) hone rfl rfl rfl
      refine ⟨[q'], [a'], by simpa [dataTaken, ha, hpipe] using hclose, ?_⟩
      have hsec' : (runState cfg s i).dSecond = false := by
        simp [runState, nextDSecond, hs, hpipe, ha, hsec, hfin]
      simp only [DataOpen, hnext, hsec', Bool.false_eq_true, if_false, hkeep]
      exact ⟨q', a', rfl, rfl, hsend', hds'.trans hdd.symm⟩
  | true =>
    -- a third request is only taken in the place of the first
    have hboth : dPipeAccept cfg s i = true ∧ dFinish s i = true := by
      rcases (of_dAccept ha).2.2 with hpipe | ⟨-, hx | ⟨-, hx⟩⟩
      · refine ⟨hpipe, ?_⟩
        simp only [dPipeAccept, Bool.and_eq_true] at hpipe
        rcases (of_dPipeTry hpipe.1).2.2.2.2 with hx | ⟨-, ⟨hx, -⟩ | hx⟩
        · rw [hs] at hx
          cases hx
        · rw [hsec] at hx
          cases hx
        · exact hx
      · rw [hs] at hx
        cases hx
      · rw [hsec] at hx
        cases hx
    obtain ⟨hpipe, hfin⟩ := hboth
    obtain ⟨hsend'', hnew⟩ := sends_of_pipe hr hproj hpipe (by simp [hs])
    have hclose := hp.close (n := some ⟨i.dmemReq, s.arch⟩) (a := some (pdmemReq cfg s i))
      (b := some i.pdmemRsp) hone rfl rfl rfl
    refine ⟨_, _, by simpa [dataTaken, ha, hpipe, hfin] using hclose, ?_⟩
    have hnext : (runState cfg s i).dState = .response := by
      simp [runState, nextDState, hs, hpipe]
    have hsec' : (runState cfg s i).dSecond = true := by
      simp [runState, nextDSecond, hs, hpipe, hsec]
    simp only [DataOpen, hnext, hsec', if_true]
    exact ⟨q', _, a', _, rfl, rfl, hsend', hsend'', hds', hnew⟩

/-- **The data lane's traffic belongs together**, over an edge. -/
theorem data_step (hc : Ctrl cfg s) (h : Seq cfg s) (hr : Repeats cfg s) (hrst : i.rstN = true)
    (hproj : ProjectionAgrees cfg i) (ht : DataPaired cfg s t) :
    DataPaired cfg (runState cfg s i) (dataEdge cfg s i t) := by
  obtain ⟨qs, as, hp, ho⟩ := ht
  cases hs : s.dState with
  | idle => exact data_idle hc h hrst hs hr hproj hp ho
  | wait => exact data_wait hc h hrst hs hp ho
  | slow => exact data_slow hc h hrst hs hp ho
  | offer => exact data_offer hc hrst hs hp ho
  | response =>
    cases hsec : s.dSecond with
    | false => exact data_response_one hc h hrst hs hsec hr hproj hp ho
    | true => exact data_response_two hc hrst hs hsec hr hproj hp ho
  | fatal => exact absurd hs hc.dState_fatal

end Step

end Router
end SloPPC603
