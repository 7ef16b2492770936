import SloPPC603.Router.Sequence
import SloPPC603.Router.Traffic

/-!
# What the sequence finds

The replies the translation sequence collects are those of the committed state, so that
it ends in the outcome of the request it took up.

* `Seq`, `seq_step` — the invariant, over an edge.
* `arch_kept` — without an update no more of the committed state than an LRU bit changes.
* `outcome_unowned` — so a request that waits keeps its outcome.
* `outcome_of_routeAllow`, `outcome_of_dsRouteFire` — how an allowed request is routed.
-/

namespace SloPPC603
namespace Router

open Clocked

/-! ## The invariant -/

/-- The access a lane holds. -/
def laneAccess (s : State) (instruction : Bool) : Access :=
  if instruction then { instruction := true, write := false, ea := s.iEa }
  else
    { instruction := false, write := s.dWrite, ea := s.dEa, kind := s.dKind, fp := s.dFp }

/-- The access in the sequence. -/
def slowAccess (s : State) : Access := laneAccess s s.request.instruction

/-- The response held in the data fault state. -/
def dataHeld (cfg : Config) (s : State) : DataResponse where
  rdata := 0
  error := s.dataFault = .ok && !s.dsNoop
  fault := s.dataFault
  pageMiss :=
    if cfg.enablePageMissResults && (s.dataFault = .pageMiss || s.dataFault = .pageChanged) then
      s.pageMissResult
    else default

/-- The response held in the fetch fault state. -/
def fetchHeld (cfg : Config) (s : State) : FetchResponse where
  insn := 0
  hints := 0
  fault := s.fetchFault
  pageMiss :=
    if cfg.enablePageMissResults && s.fetchFault = .pageMiss then s.pageMissResult else default
  esa := .denied

/-- The sequence against the committed state. -/
structure Seq (cfg : Config) (s : State) : Prop where
  taken : s.route ≠ .idle → s.request = requestOf cfg s.arch (slowAccess s)
  batSaid : s.route = .translateResponse → s.bat.response = batAnswer cfg s.arch s.request
  missed : s.route.paging = true →
    (batAnswer cfg s.arch s.request).translation.allow = false ∧
      cleanBatPageMiss cfg s.request (batAnswer cfg s.arch s.request) = true
  segmentSaid : s.route = .segmentResponse →
    s.segment.rsp.kind = .snapshot ∧
      s.segment.rsp.index = (segmentEa s.request).extractLsb' 28 4 ∧
      s.segment.rsp.address = segmentEa s.request ∧ s.segment.rsp.privileged = false ∧
      s.segment.rsp.unsupported = false ∧
      pageSr s.request s.segment.rsp.data = srWord s.arch s.request
  word : s.route = .pageOffer ∨ s.route = .pageResponse → s.pageSr = srWord s.arch s.request
  looked : s.tlb.lookup = true → s.route = .pageResponse →
    s.tlb.request =
      { lookupRequest s.request s.pageSr with
        way := s.tlb.request.way, rpn := s.tlb.request.rpn, c := s.tlb.request.c
        wimg := s.tlb.request.wimg, pp := s.tlb.request.pp, ext := s.tlb.request.ext }
  pageSaid : s.tlb.responseValid = true → s.route = .pageResponse →
    s.tlb.response = pageAnswer cfg s.arch s.request s.pageSr
  /-- The TLB's registers agree with what it has taken. -/
  tlbLedger : ∃ l, Tlb.Inv cfg.tlb s.tlb l ∧ Tlb.InvalidBase l
  noop : s.dsNoop = true → s.route = .dataFaultResponse
  heldData : s.route = .dataFaultResponse →
    (outcome cfg s.arch (slowAccess s)).dataResponse = some (dataHeld cfg s)
  heldFetch : s.route = .ifetchFaultResponse →
    (outcome cfg s.arch (slowAccess s)).fetchResponse = some (fetchHeld cfg s)
  stuck : s.route = .ifetchFatal → outcome cfg s.arch (slowAccess s) = .fatal

/-! ## The outcome at each stage -/

section Stages

variable {cfg : Config} {s : State} {i : Input} (h : Seq cfg s)
include h

/-- The outcome, past the block address service. -/
theorem outcome_paging (hp : s.route.paging = true) : outcome cfg s.arch (slowAccess s) =
    pageOutcome cfg s.request (srWord s.arch s.request)
      (pageAnswer cfg s.arch s.request (srWord s.arch s.request)) s.arch.mmu602
      (slowAccess s).kind (slowAccess s).fp := by
  have hr : s.route ≠ .idle := by
    intro hr
    simp [hr, RouteState.paging] at hp
  obtain ⟨hallow, hmiss⟩ := h.missed hp
  have hq := h.taken hr
  simp only [outcome, ← hq, hallow, hmiss, if_true, Bool.false_eq_true, if_false]

omit h in
/-- The class of the access in the sequence. -/
theorem slow_kind (hd : s.request.instruction = false) :
    (slowAccess s).kind = s.dKind ∧ (slowAccess s).fp = s.dFp := by
  simp [slowAccess, laneAccess, hd]

/-- **An allowed request is routed as its outcome says.** -/
theorem outcome_of_routeAllow (ha : routeAllow s = true) :
    outcome cfg s.arch (slowAccess s) = .allow (routePa s) (routeWimg s) (routeEsa s) := by
  simp only [routeAllow, batReply, pageReply, Bool.or_eq_true, Bool.and_eq_true,
    decide_eq_true_eq] at ha
  rcases ha with ⟨⟨hr, -⟩, ha⟩ | ⟨⟨hr, hv⟩, ha⟩
  · have hq := h.taken (by simp [hr])
    have hsaid := h.batSaid hr
    rw [hsaid] at ha
    simp only [outcome, ← hq, ha, if_true, routePa, routeWimg, routeEsa, routeFromTlb, hr,
      hsaid]
    rfl
  · have hword := h.word (Or.inr hr)
    have hsaid := h.pageSaid hv hr
    rw [outcome_paging h (by simp [hr, RouteState.paging]), pageOutcome, ← hword, ← hsaid,
      if_pos ha]
    simp [routePa, routeWimg, routeEsa, routeFromTlb, hr, State.arch]

/-- A direct-store request is routed as its outcome says. -/
theorem outcome_of_dsRouteFire (ha : dsRouteFire cfg s = true) :
    outcome cfg s.arch (slowAccess s) =
      .directStore (dsAddress s.pageSr s.dEa) (dsTag s.request s.pageSr) := by
  have hd := dsRouteFire_data ha
  obtain ⟨hk, hf⟩ := slow_kind hd
  have ha' := ha
  simp only [dsRouteFire, pageReply, Bool.and_eq_true, decide_eq_true_eq] at ha'
  obtain ⟨⟨hr, hv⟩, hds⟩ := ha'
  have hword := h.word (Or.inr hr)
  have hsaid := h.pageSaid hv hr
  have hno : ¬ pageReplyAllow s.request s.tlb.response = true := by
    intro hallow
    simp [dsRoute, dsCandidate, hallow] at hds
  have hea : s.request.ea = s.dEa := by
    rw [h.taken (by simp [hr])]
    simp [requestOf, slowAccess, laneAccess, hd]
  rw [outcome_paging h (by simp [hr, RouteState.paging]), pageOutcome, ← hword, ← hsaid,
    if_neg hno, hk, hf, if_pos hds, hea]

end Stages

/-! ## The committed state over an edge -/

section Kept

variable {cfg : Config} {s : State} {i : Input} (h : Seq cfg s) (hrst : i.rstN = true)
include h hrst

/-- **An edge with no update changes no more of the committed state than an LRU bit.** -/
theorem arch_kept (hstart : startFire cfg s i = false) (hctx : contextFire cfg s i = false)
    (hstore : s.bat.writeStore = false)
    (hbat : Bat.commitFire cfg.bat s.bat (batInput cfg s i) = false)
    (hsegment : Segment.commitFire cfg.enableSegmentRegisters s.segment (segmentInput cfg s i) =
      false)
    (htlb : Tlb.commitFire cfg.tlb s.tlb (tlbInput cfg s i) = false)
    (hkind : s.tlb.lookup = true →
      s.route = .pageResponse ∨ Tlb.isPrepare s.tlb.request = true) :
    (step cfg s i).arch =
      if s.tlb.lookup && s.route = .pageResponse then touched cfg s.arch s.request s.pageSr
      else s.arch := by
  have hbanks : (Bat.step cfg.bat s.bat (batInput cfg s i)).banks = s.bat.banks := by
    have hrst' : (batInput cfg s i).rstN = true := hrst
    simp [Bat.step, Bat.runState, hrst', Bat.nextBanks, hstore, hbat]
  have hsr : Segment.srRead
      (Segment.step cfg.enableSegmentRegisters s.segment (segmentInput cfg s i)) =
        Segment.srRead s.segment := by
    have hne : (segmentReq s i).kind ≠ .write := by
      simp only [segmentReq]
      split_ifs <;> simp
    have hwrite : Segment.writeFire s.segment (segmentInput cfg s i) = false := by
      simp [Segment.writeFire, segmentInput, hne]
    apply Segment.srRead_keep _ hrst
    simp [Segment.srWe, hsegment, hwrite]
  have hstore' : (Tlb.step cfg.tlb s.tlb (tlbInput cfg s i)).store =
      if s.tlb.lookup && s.route = .pageResponse then
        (Tlb.service cfg.tlb).perform (lookupRequest s.request s.pageSr) s.tlb.store
      else s.tlb.store := by
    cases hl : s.tlb.lookup with
    | false =>
      rw [Bool.false_and, if_neg Bool.false_ne_true]
      exact Tlb.step_store_keep hrst htlb hl
    | true =>
      obtain ⟨l, hinv, -⟩ := h.tlbLedger
      rw [Tlb.step_store_lookup hrst htlb hl (Tlb.readView_eq hinv hl)]
      by_cases hr : s.route = .pageResponse
      · have hlooked := h.looked hl hr
        have hprep : Tlb.isPrepare s.tlb.request = false := by
          rw [hlooked]
          rfl
        rw [hprep, if_neg Bool.false_ne_true, if_pos (by simp [hr]), hlooked]
        rfl
      · have hprep := (hkind hl).resolve_left hr
        rw [if_pos hprep, if_neg (by simp [hr])]
  rw [step_run hrst]
  simp only [State.arch, runState, hbanks, hsr, hstore', hctx, hstart, Bool.false_eq_true,
    if_false, Bool.or_self]
  split_ifs <;> rfl

end Kept

section Arch

variable {cfg : Config} {s : State} (hc : Ctrl cfg s)
include hc

/-- The TLB only looks up in a busy router. -/
theorem busy_tlb (hb : lanesIdle s = false) : Tlb.Calm s.tlb ∧
    (s.tlb.lookup || s.tlb.responseValid) = decide (s.route = .pageResponse) ∧
    (s.tlb.lookup && s.tlb.responseValid) = false ∧
    (s.tlb.lookup = true → s.tlb.request.kind = .lookup) :=
  hc.tlb (by rw [hc.owner_none hb]; rfl)

/-- With the slot free the TLB only looks up for the sequence. -/
theorem route_of_lookup (hown : s.owner = .none) (hl : s.tlb.lookup = true) :
    s.route = .pageResponse := by
  have heq := (hc.tlb (by rw [hown]; rfl)).2.1
  rw [hl, Bool.true_or, eq_comm, decide_eq_true_eq] at heq
  exact heq

end Arch

section Unowned

variable {cfg : Config} {s : State} {i : Input} (hc : Ctrl cfg s) (h : Seq cfg s)
  (hrst : i.rstN = true) (hrun : s.running = true) (hown : s.owner = .none)
  (hctx : contextFire cfg s i = false)
include hc h hrst hrun hown hctx

/-- With the slot free only the LRU bit that the sequence's own lookup hits moves. -/
theorem arch_unowned : (step cfg s i).arch =
    if s.tlb.lookup then touched cfg s.arch s.request s.pageSr else s.arch := by
  obtain ⟨hcalmB, -⟩ := hc.bat hrun (by simp [hown])
  obtain ⟨hcalmS, -⟩ := hc.segment (by simp [hown])
  obtain ⟨hcalmT, -⟩ := hc.tlb (by rw [hown]; rfl)
  rw [arch_kept h hrst (startFire_of_running hrun) hctx hcalmB.writeStore hcalmB.not_commitFire
    hcalmS.not_commitFire hcalmT.not_commitFire fun hl => Or.inl (route_of_lookup hc hown hl)]
  cases hl : s.tlb.lookup with
  | false => rfl
  | true => simp [route_of_lookup hc hown hl]

/-- The other lane's outcomes, and those of the access looked up, stay. -/
theorem outcome_unowned (x : Access) (hx : s.tlb.lookup = true →
      x.instruction = s.request.instruction → x = slowAccess s) :
    outcome cfg (step cfg s i).arch x = outcome cfg s.arch x := by
  rw [arch_unowned hc h hrst hrun hown hctx]
  cases hl : s.tlb.lookup with
  | false => rfl
  | true =>
    rw [if_pos rfl]
    by_cases hside : x.instruction = s.request.instruction
    · have hr := route_of_lookup hc hown hl
      obtain rfl := hx hl hside
      have hq := h.taken (by simp [hr])
      have hword := h.word (Or.inr hr)
      rw [hword, hq]
      exact outcome_touched
    · have hflip : s.request.instruction = !x.instruction := by
        cases hx1 : x.instruction <;> cases hx2 : s.request.instruction <;> simp_all
      apply outcome_congr
      rw [← hflip]
      exact sameFor_touched

end Unowned

/-! ## Denials -/

section Denials

variable {cfg : Config} {s : State} {i : Input}

/-- Where the sequence goes on a denial. -/
theorem of_nextRoute_dataFault (hn : nextRoute cfg s i = .dataFaultResponse) :
    (s.request.instruction = false ∧
        (batDenied cfg s = true ∨ snapshotBad s = true ∨ pageDenied cfg s = true)) ∨
      (s.route = .dataFaultResponse ∧ i.dmemRspReady = false) := by
  unfold nextRoute at hn
  simp only [batDenied, snapshotBad, pageDenied, batReply, pageReply]
  cases hs : s.route <;> simp only [hs] at hn ⊢
  all_goals try split_ifs at hn
  all_goals simp_all

theorem of_nextRoute_fetchFault (hn : nextRoute cfg s i = .ifetchFaultResponse) :
    (s.request.instruction = true ∧
        ((batDenied cfg s = true ∧ batFetchIsi cfg s.bat.response = true) ∨
          (pageDenied cfg s = true ∧
            pageTypedFault cfg s.request s.pageSr s.tlb.response = true))) ∨
      (s.route = .ifetchFaultResponse ∧ i.imemRspReady = false) := by
  unfold nextRoute at hn
  simp only [batDenied, pageDenied, batReply, pageReply]
  cases hs : s.route <;> simp only [hs] at hn ⊢
  all_goals try split_ifs at hn
  all_goals simp_all

theorem of_nextRoute_fatal (hn : nextRoute cfg s i = .ifetchFatal) :
    (s.request.instruction = true ∧
        ((batDenied cfg s = true ∧ batFetchIsi cfg s.bat.response = false) ∨
          snapshotBad s = true ∨
          (pageDenied cfg s = true ∧
            pageTypedFault cfg s.request s.pageSr s.tlb.response = false))) ∨
      s.route = .ifetchFatal := by
  unfold nextRoute at hn
  simp only [batDenied, snapshotBad, pageDenied, batReply, pageReply]
  cases hs : s.route <;> simp only [hs] at hn ⊢
  all_goals try split_ifs at hn
  all_goals simp_all

theorem of_batDenied (hd : batDenied cfg s = true) : s.route = .translateResponse := by
  simp only [batDenied, batReply, Bool.and_eq_true, decide_eq_true_eq] at hd
  exact hd.1.1.1

theorem of_pageDenied (hd : pageDenied cfg s = true) : s.route = .pageResponse ∧
    s.tlb.responseValid = true ∧ pageReplyAllow s.request s.tlb.response = false ∧
    dsRouteFire cfg s = false := by
  simp only [pageDenied, pageReply, Bool.and_eq_true, decide_eq_true_eq, Bool.not_eq_true'] at hd
  exact ⟨hd.1.1.1, hd.1.1.2, hd.1.2, hd.2⟩

variable (h : Seq cfg s)
include h

/-- The snapshot is the one that was asked for. -/
theorem not_snapshotBad : snapshotBad s = false := by
  rw [← Bool.not_eq_true]
  intro hbad
  simp only [snapshotBad, Bool.and_eq_true, decide_eq_true_eq, Bool.not_eq_true'] at hbad
  obtain ⟨hk, hi, ha, hp, hu, -⟩ := h.segmentSaid hbad.1.1
  simp [snapshotGood, hk, hi, ha, hp, hu] at hbad

theorem outcome_of_batDenied (hd : batDenied cfg s = true) :
    outcome cfg s.arch (slowAccess s) = batDenial cfg s.request s.bat.response := by
  have hr := of_batDenied hd
  simp only [batDenied, Bool.and_eq_true, Bool.not_eq_true'] at hd
  obtain ⟨⟨-, hallow⟩, hmiss⟩ := hd
  have hsaid := h.batSaid hr
  rw [hsaid] at hallow hmiss ⊢
  simp only [outcome, ← h.taken (by simp [hr]), hallow, hmiss, Bool.false_eq_true, if_false]

theorem outcome_of_pageDenied (hd : pageDenied cfg s = true) :
    outcome cfg s.arch (slowAccess s) =
      pageDenial cfg s.request s.pageSr s.tlb.response s.dKind s.dFp := by
  obtain ⟨hr, hv, hallow, hds⟩ := of_pageDenied hd
  rw [outcome_paging h (by simp [hr, RouteState.paging]), pageOutcome,
    ← h.word (Or.inr hr), ← h.pageSaid hv hr, if_neg (by simp [hallow])]
  cases hq : s.request.instruction with
  | true =>
    have hno : dsRoute cfg s.request s.pageSr s.tlb.response (slowAccess s).kind
        (slowAccess s).fp = false := by
      simp [dsRoute, dsCandidate, cleanPageDataDirectStore, hq]
    rw [hno, if_neg Bool.false_ne_true]
    simp [pageDenial, hq]
  | false =>
    obtain ⟨hk, hf⟩ := slow_kind hq
    have hno : dsRoute cfg s.request s.pageSr s.tlb.response s.dKind s.dFp = false := by
      simpa [dsRouteFire, pageReply, hr, hv] using hds
    rw [hk, hf, hno, if_neg Bool.false_ne_true]

/-- The data response held after a denial. -/
theorem heldData_of_denied (hq : s.request.instruction = false)
    (hd : batDenied cfg s = true ∨ snapshotBad s = true ∨ pageDenied cfg s = true) :
    (outcome cfg s.arch (slowAccess s)).dataResponse = some (dataHeld cfg (runState cfg s i)) := by
  rcases hd with hd | hd | hd
  · have hr := of_batDenied hd
    have hnoop : s.dsNoop = false := by
      rw [← Bool.not_eq_true]
      intro hn
      have := h.noop hn
      rw [hr] at this
      cases this
    have hfault : nextDataFault cfg s =
        if batDataDsi cfg s.bat.response then .dsiProtection else .ok := by
      simp [nextDataFault, hd, hq]
    rw [outcome_of_batDenied h hd]
    simp only [batDenial, hq, Bool.false_eq_true, if_false, dataHeld, runState, hfault, pageReply,
      hr, hnoop]
    split_ifs <;> simp_all [Outcome.dataResponse]
  · rw [not_snapshotBad h] at hd
    cases hd
  · obtain ⟨hr, hv, hallow, hds⟩ := of_pageDenied hd
    have hbat : batDenied cfg s = false := by simp [batDenied, batReply, hr]
    have hsnap := not_snapshotBad h
    have hfault : nextDataFault cfg s =
        pageDataFault cfg s.request s.pageSr s.tlb.response s.dKind s.dFp := by
      simp [nextDataFault, hd, hq, hbat, hsnap]
    have hchoose : choose cfg s i = false := by
      obtain ⟨hi, hdd⟩ := @choose_of_route cfg s i (by simp [hr])
      simp [choose, hi, hdd]
    rw [outcome_of_pageDenied h hd]
    simp only [pageDenial, hq, Bool.false_eq_true, if_false, dataHeld, runState, hfault, pageReply,
      hr, hv, hd, hchoose, shownMiss]
    by_cases hf : pageDataFault cfg s.request s.pageSr s.tlb.response s.dKind s.dFp = .ok
    · by_cases hn : (dsCandidate cfg s.request s.pageSr s.tlb.response && s.dKind = .cache) = true
      · simp [hf, hn, Outcome.dataResponse]
      · simp [hf, hn, Outcome.dataResponse]
    · simp [hf, Outcome.dataResponse]

/-- The fetch response held after a denial. -/
theorem heldFetch_of_denied (hq : s.request.instruction = true)
    (hd : (batDenied cfg s = true ∧ batFetchIsi cfg s.bat.response = true) ∨
      (pageDenied cfg s = true ∧
        pageTypedFault cfg s.request s.pageSr s.tlb.response = true)) :
    (outcome cfg s.arch (slowAccess s)).fetchResponse =
      some (fetchHeld cfg (runState cfg s i)) := by
  rcases hd with ⟨hd, ht⟩ | ⟨hd, ht⟩
  · have hfault : nextFetchFault cfg s =
        if s.bat.response.translation.protectionFault then .isiProtection else .isiGuarded := by
      simp [nextFetchFault, hd, hq, ht]
    rw [outcome_of_batDenied h hd]
    simp only [batDenial, hq, ht, if_true, fetchHeld, runState, hfault]
    split_ifs <;> simp_all [Outcome.fetchResponse]
  · obtain ⟨hr, hv, hallow, hds⟩ := of_pageDenied hd
    have hbat : batDenied cfg s = false := by simp [batDenied, batReply, hr]
    have hfault : nextFetchFault cfg s = pageFetchFault cfg s.request s.pageSr s.tlb.response := by
      simp [nextFetchFault, hd, hq, hbat, ht]
    have hchoose : choose cfg s i = false := by
      obtain ⟨hi, hdd⟩ := @choose_of_route cfg s i (by simp [hr])
      simp [choose, hi, hdd]
    rw [outcome_of_pageDenied h hd]
    simp only [pageDenial, hq, ht, if_true, fetchHeld, runState, hfault, hd, hchoose, shownMiss,
      Outcome.fetchResponse]
    simp

end Denials

/-! ## Over an edge -/

section Step

variable {cfg : Config} {s : State} {i : Input}

/-- A slow lane keeps its access. -/
theorem slowAccess_step (hc : Ctrl cfg s) (hr : s.route ≠ .idle) :
    (runState cfg s i).request = s.request ∧ slowAccess (runState cfg s i) = slowAccess s := by
  obtain ⟨hi, hd⟩ := @choose_of_route cfg s i hr
  have hreq : (runState cfg s i).request = s.request := by
    simp [runState, nextRequest, choose, hi, hd]
  refine ⟨hreq, ?_⟩
  rw [slowAccess, hreq, slowAccess]
  cases hq : s.request.instruction with
  | true =>
    have hs := hc.slow_i.2 ⟨hr, hq⟩
    have hno : iAccept cfg s i = false := by
      rw [← Bool.not_eq_true]
      intro ha
      rcases iState_of_iAccept ha with hx | hx <;> simp [hs] at hx
    simp [laneAccess, runState, hno]
  | false =>
    have hs := hc.slow_d.2 ⟨hr, hq⟩
    have hno : dAccept cfg s i = false := by
      rw [← Bool.not_eq_true]
      intro ha
      rcases dState_of_dAccept ha with hx | hx <;> simp [hs] at hx
    simp [laneAccess, runState, hno]

/-- A request goes into the sequence with the context that is installed. -/
theorem taken_of_choose (hc : Ctrl cfg s) (hch : choose cfg s i = true) :
    (runState cfg s i).request =
      requestOf cfg (runState cfg s i).arch (slowAccess (runState cfg s i)) := by
  have hacc : (lanesIdle s = true → iAccept cfg s i = true ∨ dAccept cfg s i = true) := by
    intro hidle
    by_contra hno
    rw [not_or, Bool.not_eq_true, Bool.not_eq_true] at hno
    rw [choose_stay hidle hno.1 hno.2] at hch
    cases hch
  have hctx : contextFire cfg s i = false ∧ s.running = true := by
    cases hidle : lanesIdle s with
    | false => exact ⟨contextFire_of_busy hidle, hc.is_running hidle⟩
    | true =>
      rcases hacc hidle with ha | ha
      · obtain ⟨hv, hok, -⟩ := of_iAccept ha
        exact ⟨by simp [contextFire, contextReady, quiescent, hv], (of_laneAcceptOk hok).2.1⟩
      · obtain ⟨hv, hok, -⟩ := of_dAccept ha
        exact ⟨by simp [contextFire, contextReady, quiescent, hv], (of_laneAcceptOk hok).2.1⟩
  have hstart := @startFire_of_running cfg s i hctx.2
  have hreq : (runState cfg s i).request = nextRequest cfg s i := rfl
  have hins : (nextRequest cfg s i).instruction = chooseInstruction cfg s i := by
    rw [nextRequest_instruction, if_pos hch]
  rw [slowAccess, hreq, hins, nextRequest, if_pos hch]
  cases hci : chooseInstruction cfg s i with
  | true =>
    have hcd := not_chooseData hci
    simp only [requestOf, laneAccess, State.arch, runState, hctx.1, hstart, hcd, if_true,
      Bool.false_and, Bool.false_eq_true, if_false, Bool.or_self]
    obtain ⟨-, hw | ⟨ha, -⟩⟩ := of_chooseInstruction hci
    · have hno : iAccept cfg s i = false := by
        rw [← Bool.not_eq_true]
        intro ha
        rcases iState_of_iAccept ha with hx | hx <;> simp [hw] at hx
      simp [hw, hno]
    · have hnw : s.iState ≠ .wait := by
        rcases iState_of_iAccept ha with hx | hx <;> simp [hx]
      simp [ha, hnw]
  | false =>
    have hcd : chooseData cfg s i = true := by simpa [choose, hci] using hch
    simp only [requestOf, laneAccess, State.arch, runState, hctx.1, hstart, hcd, Bool.true_and,
      Bool.false_eq_true, if_false, Bool.or_self]
    obtain ⟨-, hw | ⟨ha, -⟩⟩ := of_chooseData hcd
    · have hno : dAccept cfg s i = false := by
        rw [← Bool.not_eq_true]
        intro ha
        rcases dState_of_dAccept ha with hx | hx <;> simp [hw] at hx
      simp [hw, hno]
    · have hnw : s.dState ≠ .wait := by
        rcases dState_of_dAccept ha with hx | hx <;> simp [hx]
      simp [ha, hnw]

/-- The TLB's registers agree with what it has taken, over an edge. -/
theorem tlbLedger_step (h : ∃ l, Tlb.Inv cfg.tlb s.tlb l ∧ Tlb.InvalidBase l) :
    ∃ l, Tlb.Inv cfg.tlb (Tlb.step cfg.tlb s.tlb (tlbInput cfg s i)) l ∧
      Tlb.InvalidBase l := by
  obtain ⟨l, hinv, hbase⟩ := h
  exact ⟨_, Tlb.inv_step (tlbInput cfg s i) hinv, Tlb.invalidBase_update hbase⟩

/-- The answers a busy router collects are those of the state after the edge as well. -/
theorem answers_step (hc : Ctrl cfg s) (h : Seq cfg s) (hrst : i.rstN = true)
    (hb : lanesIdle s = false) (q : Request) :
    batAnswer cfg (runState cfg s i).arch q = batAnswer cfg s.arch q ∧
      srWord (runState cfg s i).arch q = srWord s.arch q ∧
      ∀ x, requestOf cfg (runState cfg s i).arch x = requestOf cfg s.arch x := by
  have harch := arch_unowned hc h hrst (hc.is_running hb) (hc.owner_none hb)
    (contextFire_of_busy hb)
  rw [step_run hrst] at harch
  rw [harch]
  cases s.tlb.lookup <;> exact ⟨rfl, rfl, fun x => rfl⟩

/-- The block address service's answer to the sequence. -/
theorem batSaid_step (hc : Ctrl cfg s) (hrst : i.rstN = true)
    (hr : s.route = .translateOffer) :
    (Bat.step cfg.bat s.bat (batInput cfg s i)).response = batAnswer cfg s.arch s.request := by
  have hb := hc.busy (by simp [hr])
  have hrun := hc.is_running hb
  obtain ⟨hcalm, hrv⟩ := hc.bat hrun (by simp [hc.owner_none hb])
  have hfire : Bat.requestFire s.bat (batInput cfg s i) = true := by
    simp [Bat.requestFire, hcalm.reqReady_eq, hrv, hr, batInput, batReqValid, hrun, hrst]
  have hans : Bat.answerFire cfg.bat s.bat (batInput cfg s i) = true := by
    have hcap := @not_capture_of_translate cfg s i hrun hr
    unfold Bat.captureFire at hcap
    unfold Bat.answerFire
    rw [hfire, Bool.true_and] at hcap
    rw [hfire, hcap]
    rfl
  have hreq : batReq s i = batRequest s.request s.mmu602.wimg := by
    simp [batReq, batRequest, servicePr, hrun, hr]
  rw [Bat.response_step hcalm hrst hans]
  show Bat.response cfg.bat (batReq s i) s.bat.banks = _
  rw [hreq]
  rfl

/-- The segment registers' answer to the sequence. -/
theorem segmentSaid_step (hc : Ctrl cfg s) (hrst : i.rstN = true)
    (hr : s.route = .segmentOffer) :
    let rsp := (Segment.step cfg.enableSegmentRegisters s.segment (segmentInput cfg s i)).rsp
    rsp.kind = .snapshot ∧ rsp.index = (segmentEa s.request).extractLsb' 28 4 ∧
      rsp.address = segmentEa s.request ∧ rsp.privileged = false ∧ rsp.unsupported = false ∧
      pageSr s.request rsp.data = srWord s.arch s.request := by
  have hb := hc.busy (by simp [hr])
  obtain ⟨hcalm, hrv⟩ := hc.segment (by simp [hc.owner_none hb])
  have hpt := hc.paging (by simp [hr, RouteState.paging])
  have hfire : Segment.requestFire s.segment (segmentInput cfg s i) = true := by
    simp [Segment.requestFire, hcalm.reqReady_eq, Segment.rspFree, hrv, hr, segmentInput,
      segmentReqValid, hpt, hrst]
  rw [Segment.rsp_step hrst hfire]
  simp [Segment.respond, segmentInput, segmentReq, hr, Segment.requestIndex, srWord, State.arch]

/-- The lookup the TLB takes. -/
theorem looked_step (hc : Ctrl cfg s) (h : Seq cfg s) (hrst : i.rstN = true)
    (hr : s.route = .pageOffer) :
    (Tlb.step cfg.tlb s.tlb (tlbInput cfg s i)).request =
      { lookupRequest s.request s.pageSr with
        way := (Tlb.step cfg.tlb s.tlb (tlbInput cfg s i)).request.way
        rpn := (Tlb.step cfg.tlb s.tlb (tlbInput cfg s i)).request.rpn
        c := (Tlb.step cfg.tlb s.tlb (tlbInput cfg s i)).request.c
        wimg := (Tlb.step cfg.tlb s.tlb (tlbInput cfg s i)).request.wimg
        pp := (Tlb.step cfg.tlb s.tlb (tlbInput cfg s i)).request.pp
        ext := (Tlb.step cfg.tlb s.tlb (tlbInput cfg s i)).request.ext } := by
  have hb := hc.busy (by simp [hr])
  obtain ⟨hcalm, hrv, -⟩ := busy_tlb hc hb
  have hidle : (s.tlb.lookup || s.tlb.responseValid) = false := by simp [hrv, hr]
  obtain ⟨hl, hrv0⟩ := Bool.or_eq_false_iff.1 hidle
  have hpt := hc.paging (by simp [hr, RouteState.paging])
  have hfire : Tlb.requestFire s.tlb (tlbInput cfg s i) = true := by
    simp [Tlb.requestFire, hcalm.reqReady_eq, Tlb.rspFree, hrv0, hl, hr, tlbInput, tlbReqValid,
      hpt, hrst]
  have hpo : (cfg.has602 && s.request.po) = s.request.po := by
    rw [h.taken (by simp [hr])]
    simp [requestOf]
  rw [Tlb.request_step hrst hfire]
  simp [Tlb.capture, tlbInput, tlbReq, hr, lookupRequest, Config.tlb, hpo]

/-- The TLB's answer to the sequence. -/
theorem pageSaid_step (h : Seq cfg s) (hrst : i.rstN = true)
    (hr : s.route = .pageResponse) (hl : s.tlb.lookup = true) :
    (Tlb.step cfg.tlb s.tlb (tlbInput cfg s i)).response =
      pageAnswer cfg s.arch s.request s.pageSr := by
  obtain ⟨l, hinv, -⟩ := h.tlbLedger
  have hread := Tlb.readView_eq hinv hl
  have hresp : (Tlb.step cfg.tlb s.tlb (tlbInput cfg s i)).response =
      Tlb.respond cfg.tlb s.tlb.request (Tlb.readView cfg.tlb s.tlb) := by
    have hin : (tlbInput cfg s i).rstN = true := hrst
    simp [Tlb.step, Tlb.runState, hin, hl]
  rw [hresp, hread, h.looked hl hr]
  rfl

/-- Where the states past the block address service come from. -/
theorem of_nextRoute_paging (hn : (nextRoute cfg s i).paging = true) :
    s.route.paging = true ∨ (s.route = .translateResponse ∧
      s.bat.response.translation.allow = false ∧
      cleanBatPageMiss cfg s.request s.bat.response = true) := by
  unfold nextRoute at hn
  cases hs : s.route <;> simp only [hs] at hn ⊢
  all_goals try split_ifs at hn
  all_goals simp_all [RouteState.paging]

/-- Where the states with the segment word come from. -/
theorem of_nextRoute_word
    (hn : nextRoute cfg s i = .pageOffer ∨ nextRoute cfg s i = .pageResponse) :
    (s.route = .segmentResponse ∧ s.segment.rspValid = true ∧ snapshotGood s = true) ∨
      s.route = .pageOffer ∨ s.route = .pageResponse := by
  unfold nextRoute at hn
  cases hs : s.route <;> simp only [hs] at hn ⊢
  all_goals try split_ifs at hn
  all_goals simp_all

/-- A no-op is on its way to its response. -/
theorem noop_step (h : Seq cfg s) (hn' : (runState cfg s i).dsNoop = true) :
    nextRoute cfg s i = .dataFaultResponse := by
  simp only [runState] at hn'
  by_cases hp : pageReply s = true
  · rw [if_pos hp] at hn'
    simp only [pageReply, Bool.and_eq_true, decide_eq_true_eq] at hp hn'
    have hds : dsRouteFire cfg s = false := by
      simp [dsRouteFire, dsRoute, hn'.2]
    have hcand := hn'.1
    simp only [dsCandidate, cleanPageDataDirectStore, Bool.and_eq_true, Bool.not_eq_true'] at hcand
    simp [nextRoute, hp, hds, hcand.1.2, hcand.2.1.2]
  · rw [if_neg hp] at hn'
    split_ifs at hn' with hx
    · have hro := h.noop hn'
      have hready : i.dmemRspReady = false := by simpa [hro] using hx
      simp [nextRoute, hro, hready]

/-- **The sequence against the committed state**, over an edge of a busy router. -/
theorem seq_busy (hc : Ctrl cfg s) (h : Seq cfg s) (hrst : i.rstN = true)
    (hr : s.route ≠ .idle) : Seq cfg (runState cfg s i) := by
  have hb := hc.busy hr
  obtain ⟨hreq, hslow⟩ := @slowAccess_step cfg s i hc hr
  have hans := answers_step hc h hrst hb
  have hout := outcome_unowned hc h hrst (hc.is_running hb) (hc.owner_none hb)
    (contextFire_of_busy hb) (slowAccess s) (fun _ _ => rfl)
  rw [step_run hrst] at hout
  obtain ⟨hcalmB, hrvB⟩ := hc.bat (hc.is_running hb) (by simp [hc.owner_none hb])
  obtain ⟨-, hrvS⟩ := hc.segment (by simp [hc.owner_none hb])
  obtain ⟨-, hrvT, honce, -⟩ := busy_tlb hc hb
  constructor
  · intro _
    rw [hreq, hslow, (hans s.request).2.2]
    exact h.taken hr
  · intro hr'
    rw [hreq, (hans s.request).1]
    rcases nextRoute_translateResponse.1 hr' with ⟨hro, -⟩ | ⟨hro, hrv⟩
    · exact batSaid_step hc hrst hro
    · rw [hrvB, hro] at hrv
      cases hrv
  · intro hr'
    rw [hreq, (hans s.request).1]
    rcases of_nextRoute_paging hr' with hp | ⟨hro, hallow, hmiss⟩
    · exact h.missed hp
    · rw [← h.batSaid hro]
      exact ⟨hallow, hmiss⟩
  · intro hr'
    rw [hreq, (hans s.request).2.1]
    rcases nextRoute_segmentResponse.1 hr' with ⟨hro, -⟩ | ⟨hro, hrv⟩
    · exact segmentSaid_step hc hrst hro
    · rw [hrvS, hro] at hrv
      cases hrv
  · intro hr'
    rw [hreq, (hans s.request).2.1]
    rcases of_nextRoute_word hr' with ⟨hro, hrv, hgood⟩ | hro
    · simp only [runState, hro, hrv, hgood]
      exact (h.segmentSaid hro).2.2.2.2.2
    · have hno : s.route ≠ .segmentResponse := by rcases hro with hro | hro <;> simp [hro]
      simp only [runState, hno, decide_false, Bool.false_and, Bool.false_eq_true, if_false]
      exact h.word hro
  · intro hl' hr'
    rw [hreq]
    rcases nextRoute_pageResponse.1 hr' with ⟨hro, -⟩ | ⟨hro, hrv⟩
    · have hsr : (runState cfg s i).pageSr = s.pageSr := by simp [runState, hro]
      rw [hsr]
      exact looked_step hc h hrst hro
    · have hl : s.tlb.lookup = true := by simpa [hrv, hro] using hrvT
      have hl'' : (Tlb.step cfg.tlb s.tlb (tlbInput cfg s i)).lookup = true := hl'
      rw [Tlb.lookup_step hrst, hl] at hl''
      cases hl''
  · intro hv' hr'
    have hv'' : (Tlb.step cfg.tlb s.tlb (tlbInput cfg s i)).responseValid = true := hv'
    rw [Tlb.responseValid_step hrst] at hv''
    rcases nextRoute_pageResponse.1 hr' with ⟨hro, -⟩ | ⟨hro, hrv⟩
    · have hidle : (s.tlb.lookup || s.tlb.responseValid) = false := by simp [hrvT, hro]
      obtain ⟨hl, hrv0⟩ := Bool.or_eq_false_iff.1 hidle
      rw [hl, hrv0] at hv''
      exact absurd hv'' (by simp)
    · have hl : s.tlb.lookup = true := by simpa [hrv, hro] using hrvT
      have hsr : (runState cfg s i).pageSr = s.pageSr := by simp [runState, hro]
      have harch := arch_unowned hc h hrst (hc.is_running hb) (hc.owner_none hb)
        (contextFire_of_busy hb)
      rw [step_run hrst, hl, if_pos rfl] at harch
      rw [hreq, hsr, harch, pageAnswer_touched]
      exact pageSaid_step h hrst hro hl
  · exact tlbLedger_step h.tlbLedger
  · intro hn'
    exact noop_step h hn'
  · intro hr'
    rw [hslow, hout]
    rcases of_nextRoute_dataFault hr' with ⟨hq, hd⟩ | ⟨hro, hready⟩
    · exact heldData_of_denied h hq hd
    · rw [h.heldData hro]
      have hno : batDenied cfg s = false ∧ snapshotBad s = false ∧ pageDenied cfg s = false := by
        simp [batDenied, batReply, snapshotBad, pageDenied, pageReply, hro]
      obtain ⟨hi, hd⟩ := @choose_of_route cfg s i hr
      simp [dataHeld, runState, nextDataFault, hno, pageReply, hro, hready, choose, hi, hd]
  · intro hr'
    rw [hslow, hout]
    rcases of_nextRoute_fetchFault hr' with ⟨hq, hd⟩ | ⟨hro, hready⟩
    · exact heldFetch_of_denied h hq hd
    · rw [h.heldFetch hro]
      have hno : batDenied cfg s = false ∧ pageDenied cfg s = false := by
        simp [batDenied, batReply, pageDenied, pageReply, hro]
      obtain ⟨hi, hd⟩ := @choose_of_route cfg s i hr
      simp [fetchHeld, runState, nextFetchFault, hno, choose, hi, hd]
  · intro hr'
    rw [hslow, hout]
    rcases of_nextRoute_fatal hr' with ⟨hq, ⟨hd, ht⟩ | hd | ⟨hd, ht⟩⟩ | hro
    · rw [outcome_of_batDenied h hd]
      simp [batDenial, hq, ht]
    · rw [not_snapshotBad h] at hd
      cases hd
    · rw [outcome_of_pageDenied h hd]
      simp [pageDenial, hq, ht]
    · exact h.stuck hro

/-- With the sequence idle, all there is to keep is the TLB's ledger. -/
theorem seq_start {s' : State} (hr : s'.route = .idle ∨ s'.route = .translateOffer)
    (htaken : s'.route ≠ .idle → s'.request = requestOf cfg s'.arch (slowAccess s'))
    (hledger : ∃ l, Tlb.Inv cfg.tlb s'.tlb l ∧ Tlb.InvalidBase l)
    (hnoop : s'.dsNoop = false) : Seq cfg s' := by
  constructor
  case taken => exact htaken
  case tlbLedger => exact hledger
  case noop => simp [hnoop]
  all_goals rcases hr with hr | hr <;> simp [hr, RouteState.paging]

/-- The sequence of a router just reset. -/
theorem seq_reset (hrst : i.rstN = false) : Seq cfg (step cfg s i) := by
  have hin : (tlbInput cfg s i).rstN = false := hrst
  rw [step_reset hrst]
  apply seq_start (Or.inl rfl)
  · intro hr
    exact absurd rfl hr
  · exact ⟨Clocked.Ledger.start (Tlb.step cfg.tlb s.tlb (tlbInput cfg s i)).store,
      Tlb.inv_reset hin _ rfl rfl rfl, Tlb.invalid_of_reset hin⟩
  · rfl

/-- **The sequence against the committed state**, over an edge. -/
theorem seq_step (hc : Ctrl cfg s) (h : Seq cfg s) : Seq cfg (step cfg s i) := by
  cases hrst : i.rstN with
  | false => exact seq_reset hrst
  | true =>
    rw [step_run hrst]
    by_cases hr : s.route = .idle
    · have hnext : nextRoute cfg s i = if choose cfg s i then .translateOffer else .idle := by
        simp only [nextRoute, hr]
      have hnoop : s.dsNoop = false := by
        rw [← Bool.not_eq_true]
        intro hn
        have := h.noop hn
        rw [hr] at this
        cases this
      apply seq_start
      · show nextRoute cfg s i = _ ∨ nextRoute cfg s i = _
        rw [hnext]
        split_ifs <;> simp
      · intro hr'
        have hch : choose cfg s i = true := by
          by_contra hch
          apply hr'
          show nextRoute cfg s i = _
          rw [hnext, if_neg hch]
        exact taken_of_choose hc hch
      · exact tlbLedger_step h.tlbLedger
      · simp [runState, pageReply, hr, hnoop]
    · exact seq_busy hc h hrst hr

/-- The sequence against the committed state, along a run. -/
theorem seq_run (r : Run (machine cfg)) (n : ℕ) : Seq cfg (r.state n) := by
  induction n with
  | zero =>
    obtain ⟨s₀, i, hrst, heq⟩ := r.initial
    rw [Run.state_zero, heq]
    exact seq_reset hrst
  | succ n ih => exact seq_step (ctrl_run r n) ih

end Step

end Router
end SloPPC603
