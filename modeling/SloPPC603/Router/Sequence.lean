import SloPPC603.Router.Outcome
import SloPPC603.Router.Signals
import SloPPC603.Translation.Quiet

/-!
# The translation sequence

The control of the router as an invariant: the sequence serves the lane that is slow, the
update slot has one owner and only over idle lanes, and a service that nobody owns is
either idle or holds the reply the sequence waits for.

* `Ctrl`, `ctrl_step` — the invariant, over an edge.
-/

namespace SloPPC603
namespace Router

open Clocked

/-! ## The invariant -/

/-- The slot belongs to one of the three users of the TLB service. -/
def ownsTlb : Owner → Bool
  | .tlbInv | .tlbFill | .tlbMgmt => true
  | _ => false

/-- The sequence is past the block address service. -/
def RouteState.paging : RouteState → Bool
  | .segmentOffer | .segmentResponse | .pageOffer | .pageResponse => true
  | _ => false

/-- The control of the router. -/
structure Ctrl (cfg : Config) (s : State) : Prop where
  route_valid : s.route ≠ .invalid
  slow_i : s.iState = .slow ↔ s.route ≠ .idle ∧ s.request.instruction = true
  slow_d : s.dState = .slow ↔ s.route ≠ .idle ∧ s.request.instruction = false
  dState_fatal : s.dState ≠ .fatal
  /-- A fault is reported to the lane that is slow. -/
  fault_d : s.route = .dataFaultResponse → s.request.instruction = false
  fault_i : s.route = .ifetchFaultResponse ∨ s.route = .ifetchFatal →
    s.request.instruction = true
  paging : s.route.paging = true → cfg.enablePageTranslation = true
  second : s.dSecond = true → s.dState = .response ∧ s.dDs = false
  owned : s.owner ≠ .none → lanesIdle s = true
  stopped : s.running = false → lanesIdle s = true ∧ (s.owner = .none ∨ s.owner = .tlbMgmt)
  bat : s.running = true → s.owner ≠ .batCsr →
    Bat.Calm s.bat ∧ s.bat.responseValid = decide (s.route = .translateResponse)
  /-- A running router only prepares block address writes. -/
  batStore : s.running = true →
    s.bat.writeStore = false ∧ (s.bat.write = true → s.bat.writePrepare = true)
  segment : s.owner ≠ .segment →
    Segment.Calm s.segment ∧ s.segment.rspValid = decide (s.route = .segmentResponse)
  tlb : ownsTlb s.owner = false → Tlb.Calm s.tlb ∧
    (s.tlb.lookup || s.tlb.responseValid) = decide (s.route = .pageResponse) ∧
    (s.tlb.lookup && s.tlb.responseValid) = false ∧
    (s.tlb.lookup = true → s.tlb.request.kind = .lookup)
  /-- Only management changes the TLB at once. -/
  tlbKind : s.owner = .tlbInv ∨ s.owner = .tlbFill → s.tlb.lookup = true →
    Tlb.isPrepare s.tlb.request = true

section Facts

variable {cfg : Config} {s : State} {i : Input} (h : Ctrl cfg s)
include h

/-- The sequence runs for a slow lane. -/
theorem Ctrl.busy (hr : s.route ≠ .idle) : lanesIdle s = false := by
  rw [← Bool.not_eq_true, lanesIdle_iff]
  rintro ⟨hi, hd⟩
  cases hq : s.request.instruction with
  | true =>
    have := h.slow_i.2 ⟨hr, hq⟩
    rw [hi] at this
    cases this
  | false =>
    have := h.slow_d.2 ⟨hr, hq⟩
    rw [hd] at this
    cases this

theorem Ctrl.route_idle (hidle : lanesIdle s = true) : s.route = .idle := by
  by_contra hr
  rw [h.busy hr] at hidle
  cases hidle

theorem Ctrl.owner_none (hb : lanesIdle s = false) : s.owner = .none := by
  by_contra ho
  rw [h.owned ho] at hb
  cases hb

theorem Ctrl.is_running (hb : lanesIdle s = false) : s.running = true := by
  rw [← Bool.not_eq_false]
  intro hr
  rw [(h.stopped hr).1] at hb
  cases hb

omit h in
/-- A running router does not start again. -/
theorem startFire_of_running (hr : s.running = true) : startFire cfg s i = false := by
  simp [startFire, startReady, hr]

omit h in
theorem contextFire_of_busy (hb : lanesIdle s = false) : contextFire cfg s i = false := by
  simp [contextFire, contextReady, quiescent, hb]

/-- The slot is owned, or its owner gives it back, without a request to a service. -/
theorem Ctrl.requests_owned (ho : s.owner ≠ .none) : slotFree s i = false ∧ s.route = .idle ∧
    laneAcceptOk s i = false :=
  ⟨slotFree_of_owner ho, h.route_idle (h.owned ho), by simp [laneAcceptOk, ho]⟩

end Facts

/-! ## The sequence and its lane -/

section Lane

variable {cfg : Config} {s : State} {i : Input}

/-- Only a data access goes out as a direct-store request. -/
theorem dsRouteFire_data (h : dsRouteFire cfg s = true) : s.request.instruction = false := by
  simp only [dsRouteFire, dsRoute, dsCandidate, cleanPageDataDirectStore, Bool.and_eq_true,
    Bool.not_eq_true'] at h
  exact h.2.1.1.2.1.2

/-- How a translation ends. -/
theorem nextRoute_eq_idle (hr : s.route ≠ .idle) : nextRoute cfg s i = .idle ↔
    routeAllow s = true ∨ dsRouteFire cfg s = true ∨
      (s.route = .dataFaultResponse ∧ i.dmemRspReady = true) ∨
      (s.route = .ifetchFaultResponse ∧ i.imemRspReady = true) := by
  unfold nextRoute routeAllow batReply pageReply
  cases hs : s.route <;> simp only [hs] at hr ⊢
  case idle => exact absurd rfl hr
  case translateResponse =>
    have hds : dsRouteFire cfg s = false := by simp [dsRouteFire, pageReply, hs]
    cases hv : s.bat.responseValid <;> cases ha : s.bat.response.translation.allow <;>
      simp [hds]
    split_ifs <;> simp
  case pageResponse =>
    cases hv : s.tlb.responseValid
    · simp [dsRouteFire, pageReply, hv]
    · simp only [Bool.not_true, Bool.false_eq_true, if_false, Bool.or_eq_true]
      split_ifs with h1 h2 h3 <;> simp_all
  all_goals
    have hds : dsRouteFire cfg s = false := by simp [dsRouteFire, pageReply, hs]
    simp only [hds]
    try split_ifs
    all_goals simp_all

theorem nextRequest_instruction : (nextRequest cfg s i).instruction =
    if choose cfg s i then chooseInstruction cfg s i else s.request.instruction := by
  unfold nextRequest
  split_ifs <;> rfl

variable (h : Ctrl cfg s)
include h

theorem ctrl_slow_i : nextIState cfg s i = .slow ↔
    nextRoute cfg s i ≠ .idle ∧ (nextRequest cfg s i).instruction = true := by
  by_cases hr : s.route = .idle
  · have hne : s.iState ≠ .slow := fun hs => (h.slow_i.1 hs).1 hr
    rw [nextIState_slow hne, nextRequest_instruction]
    simp only [nextRoute, hr, choose]
    by_cases hi : chooseInstruction cfg s i = true <;>
      by_cases hd : chooseData cfg s i = true <;> simp [hi, hd]
  · obtain ⟨hci, hcd⟩ := @choose_of_route cfg s i hr
    simp only [nextRequest_instruction, choose, hci, hcd, Bool.or_self, Bool.false_eq_true,
      if_false]
    cases hq : s.request.instruction with
    | false =>
      have hne : s.iState ≠ .slow := by
        intro hs
        rw [(h.slow_i.1 hs).2] at hq
        cases hq
      rw [nextIState_slow hne]
      simp [hci]
    | true =>
      have hs := h.slow_i.2 ⟨hr, hq⟩
      have hds : dsRouteFire cfg s = false := by
        rw [← Bool.not_eq_true]
        intro hds
        rw [dsRouteFire_data hds] at hq
        cases hq
      have hdf : s.route ≠ .dataFaultResponse := by
        intro hdf
        rw [h.fault_d hdf] at hq
        cases hq
      rw [Ne, nextRoute_eq_idle hr]
      simp only [nextIState, hs, hq, hds, hdf, Bool.and_true]
      split_ifs <;> simp_all

theorem ctrl_slow_d : nextDState cfg s i = .slow ↔
    nextRoute cfg s i ≠ .idle ∧ (nextRequest cfg s i).instruction = false := by
  by_cases hr : s.route = .idle
  · have hne : s.dState ≠ .slow := fun hs => (h.slow_d.1 hs).1 hr
    rw [nextDState_slow hne, nextRequest_instruction]
    simp only [nextRoute, hr, choose]
    by_cases hi : chooseInstruction cfg s i = true
    · simp [hi, not_chooseData hi]
    · by_cases hd : chooseData cfg s i = true <;> simp [hi, hd]
  · obtain ⟨hci, hcd⟩ := @choose_of_route cfg s i hr
    simp only [nextRequest_instruction, choose, hci, hcd, Bool.or_self, Bool.false_eq_true,
      if_false]
    cases hq : s.request.instruction with
    | true =>
      have hne : s.dState ≠ .slow := by
        intro hs
        rw [(h.slow_d.1 hs).2] at hq
        cases hq
      rw [nextDState_slow hne]
      simp [hcd]
    | false =>
      have hs := h.slow_d.2 ⟨hr, hq⟩
      have hif : s.route ≠ .ifetchFaultResponse := by
        intro hif
        rw [h.fault_i (Or.inl hif)] at hq
        cases hq
      rw [Ne, nextRoute_eq_idle hr]
      simp only [nextDState, hs, hq, hif, Bool.not_false, Bool.and_true]
      by_cases ha : routeAllow s = true <;> by_cases hd : dsRouteFire cfg s = true <;>
        simp [ha, hd]

theorem ctrl_dState_fatal : nextDState cfg s i ≠ .fatal := by
  have hne := h.dState_fatal
  have hst : dAcceptState cfg s i ≠ .fatal := by
    unfold dAcceptState
    split_ifs <;> simp
  unfold nextDState
  cases hs : s.dState <;> simp_all
  all_goals split_ifs <;> simp_all

theorem ctrl_route_valid : nextRoute cfg s i ≠ .invalid := by
  have hne := h.route_valid
  unfold nextRoute
  cases hs : s.route <;> simp_all
  all_goals split_ifs <;> simp_all

/-- Where the later states of the sequence come from. -/
theorem ctrl_faults :
    (nextRoute cfg s i = .dataFaultResponse → (nextRequest cfg s i).instruction = false) ∧
    (nextRoute cfg s i = .ifetchFaultResponse ∨ nextRoute cfg s i = .ifetchFatal →
      (nextRequest cfg s i).instruction = true) ∧
    ((nextRoute cfg s i).paging = true → cfg.enablePageTranslation = true) := by
  by_cases hr : s.route = .idle
  · simp only [nextRoute, hr]
    split_ifs <;> simp [RouteState.paging]
  · obtain ⟨hci, hcd⟩ := @choose_of_route cfg s i hr
    have hpt : cleanBatPageMiss cfg s.request s.bat.response = true →
        cfg.enablePageTranslation = true := by
      intro hm
      simp only [cleanBatPageMiss, Bool.and_eq_true] at hm
      exact hm.1.1.1.1.1.1.1.1.1.1.1.1.1.1
    have hd := h.fault_d
    have hi := h.fault_i
    have hp := h.paging
    simp only [nextRequest_instruction, choose, hci, hcd, Bool.or_self, Bool.false_eq_true,
      if_false]
    unfold nextRoute
    cases hs : s.route <;> simp only [hs] at hr hd hi hp ⊢
    all_goals try split_ifs
    all_goals simp_all [RouteState.paging]

/-- A second response is owed only behind a plain one. -/
theorem ctrl_second (hs' : nextDSecond cfg s i = true) : nextDState cfg s i = .response ∧
    dsRouteFire cfg s = false ∧ (dAccept cfg s i = true ∨ s.dDs = false) := by
  by_cases hs : s.dState = .response
  · have hds : dsRouteFire cfg s = false := by
      rw [← Bool.not_eq_true]
      intro hds
      have hr : s.route ≠ .idle := by
        intro hr
        simp [dsRouteFire, pageReply, hr] at hds
      have := h.slow_d.2 ⟨hr, dsRouteFire_data hds⟩
      rw [hs] at this
      cases this
    refine ⟨?_, hds, ?_⟩
    · cases hp : dPipeAccept cfg s i with
      | true => simp [nextDState, hs, hp]
      | false =>
        cases ha : dAccept cfg s i with
        | true =>
          obtain ⟨-, -, hp' | ⟨-, hi | ⟨-, hsec⟩⟩⟩ := of_dAccept ha
          · rw [hp] at hp'
            cases hp'
          · rw [hs] at hi
            cases hi
          · simp [nextDSecond, hs, hp, ha, hsec] at hs'
        | false =>
          simp only [nextDSecond, hs, hp, ha, ne_eq, not_true_eq_false, if_false,
            Bool.false_eq_true, Bool.and_eq_true, Bool.not_eq_true'] at hs'
          simp [nextDState, hs, hp, ha, hs'.2]
    · cases ha : dAccept cfg s i with
      | true => exact Or.inl rfl
      | false =>
        right
        have hp : dPipeAccept cfg s i = false := by
          rw [← Bool.not_eq_true]
          intro hp
          rw [dAccept_of_dPipeAccept hp] at ha
          cases ha
        simp only [nextDSecond, hs, hp, ha, ne_eq, not_true_eq_false, if_false,
          Bool.false_eq_true, Bool.and_eq_true] at hs'
        exact (h.second hs'.1).2
  · have hold : s.dSecond = true := by simpa [nextDSecond, hs] using hs'
    exact absurd (h.second hold).1 hs

/-- An owned slot, and one just granted, is over lanes that stay idle. -/
theorem ctrl_owned (ho' : nextOwner cfg s i ≠ .none) :
    nextIState cfg s i = .idle ∧ nextDState cfg s i = .idle := by
  by_cases ho : s.owner = .none
  · have hfree := slotFree_of_slotAsk (slotAsk_of_slotGrant (slotGrant_of_nextOwner ho ho'))
    obtain ⟨hi, hd⟩ := @not_accept_of_slotFree cfg s i hfree
    exact lanes_stay (of_slotFree hfree).2.2.2.1 hi hd
  · obtain ⟨hi, hd⟩ := @not_accept cfg s i (h.requests_owned ho).2.2
    exact lanes_stay (h.owned ho) hi hd

/-- Before its start the router is idle, or managed. -/
theorem ctrl_stopped (hrun : s.running = false) :
    nextIState cfg s i = .idle ∧ nextDState cfg s i = .idle ∧ choose cfg s i = false ∧
      (nextOwner cfg s i = .none ∨ nextOwner cfg s i = .tlbMgmt) := by
  obtain ⟨hidle, ho⟩ := h.stopped hrun
  obtain ⟨hi, hd⟩ := @not_accept cfg s i (by simp [laneAcceptOk, hrun])
  obtain ⟨hi', hd'⟩ := @lanes_stay cfg s i hidle hi hd
  refine ⟨hi', hd', choose_stay hidle hi hd, ?_⟩
  rcases ho with ho | ho
  · by_contra hno
    rw [not_or] at hno
    have hg := slotAsk_of_slotGrant (slotGrant_of_nextOwner ho hno.1)
    simp only [slotAsk, slotOffer, Bool.and_eq_true] at hg
    have helig := hg.1.1.2
    cases hn : nextOwner cfg s i <;> simp_all [slotEligible]
  · simp only [nextOwner, ho]
    split_ifs <;> simp

end Lane

/-! ## The services between updates -/

section Services

variable {cfg : Config} {s : State} {i : Input}

theorem nextRoute_translateResponse : nextRoute cfg s i = .translateResponse ↔
    (s.route = .translateOffer ∧ batReqValid cfg s i = true ∧ batReqReady cfg s i = true) ∨
      (s.route = .translateResponse ∧ s.bat.responseValid = false) := by
  unfold nextRoute
  cases hs : s.route <;> simp only [reduceCtorEq, false_and, true_and, or_false, false_or]
  all_goals try split_ifs
  all_goals simp_all

theorem nextRoute_segmentResponse : nextRoute cfg s i = .segmentResponse ↔
    (s.route = .segmentOffer ∧ segmentReqValid cfg s i = true ∧
        segmentReqReady cfg s i = true) ∨
      (s.route = .segmentResponse ∧ s.segment.rspValid = false) := by
  unfold nextRoute
  cases hs : s.route <;> simp only [reduceCtorEq, false_and, true_and, or_false, false_or]
  all_goals try split_ifs
  all_goals simp_all

theorem nextRoute_pageResponse : nextRoute cfg s i = .pageResponse ↔
    (s.route = .pageOffer ∧ tlbReqValid cfg s i = true ∧ tlbReqReady cfg s i = true) ∨
      (s.route = .pageResponse ∧ s.tlb.responseValid = false) := by
  unfold nextRoute
  cases hs : s.route <;> simp only [reduceCtorEq, false_and, true_and, or_false, false_or]
  all_goals try split_ifs
  all_goals simp_all

/-- A translation request is no write. -/
theorem not_capture_of_translate (hrun : s.running = true) (hr : s.route = .translateOffer) :
    Bat.captureFire cfg.bat s.bat (batInput cfg s i) = false := by
  have hkind : (batReq s i).kind ≠ .sprWrite ∧ (batReq s i).kind ≠ .prepareWrite := by
    simp only [batReq, hrun, hr, Bool.not_true, Bool.false_eq_true, if_false, if_true]
    split_ifs <;> simp
  simp [Bat.captureFire, batInput, Bat.csrWriteCandidate, Bat.prepareRequest, hkind]

variable (h : Ctrl cfg s)
include h

/-- With its reply due or not, a service that the slot does not own takes no request but the
sequence's. -/
theorem ctrl_bat (hrst : i.rstN = true) (hrun' : (startFire cfg s i || s.running) = true)
    (ho' : nextOwner cfg s i ≠ .batCsr) :
    Bat.Calm (Bat.step cfg.bat s.bat (batInput cfg s i)) ∧
      (Bat.step cfg.bat s.bat (batInput cfg s i)).responseValid =
        decide (nextRoute cfg s i = .translateResponse) := by
  have hin : (batInput cfg s i).rstN = true := hrst
  -- it is calm, and its requests are none or the sequence's
  have key : Bat.Calm s.bat ∧ s.bat.responseValid = decide (s.route = .translateResponse) ∧
      (s.route = .translateResponse → batRspReady s i = true) ∧
      ((s.route = .translateOffer ∧ s.running = true) ∨
        (s.route ≠ .translateOffer ∧ batReqValid cfg s i = false)) := by
    cases hrun : s.running with
    | false =>
      have hstart : startFire cfg s i = true := by simpa [hrun] using hrun'
      simp only [startFire, startReady, Bool.and_eq_true, Bool.not_eq_true'] at hstart
      obtain ⟨-, ⟨⟨⟨⟨⟨-, -⟩, hwv⟩, hrv⟩, hready⟩, -⟩, -⟩ := hstart
      simp only [batReqReady, Bat.reqReady, Bool.and_eq_true, Bool.not_eq_true'] at hready
      have hroute := h.route_idle (h.stopped hrun).1
      refine ⟨⟨hready.1.1.1.1.2, hready.1.1.1.2, hready.1.1.2, hready.1.2⟩, ?_, ?_, Or.inr ⟨?_, ?_⟩⟩
      · simp [hroute, hrv]
      · simp [hroute]
      · simp [hroute]
      · simp [batReqValid, hrun, hwv]
    | true =>
      by_cases ho : s.owner = .batCsr
      · have hsi : serviceIdle s i = true := by
          by_contra hsi
          simp [nextOwner, ho, hsi] at ho'
        simp only [serviceIdle, Bool.and_eq_true, Bool.not_eq_true'] at hsi
        obtain ⟨hfree, hroute, -⟩ := @Ctrl.requests_owned cfg s i h (by simp [ho])
        refine ⟨⟨hsi.1.1.1.2, hsi.1.1.2, hsi.1.2, hsi.2⟩, ?_, ?_, Or.inr ⟨?_, ?_⟩⟩
        · simp [hroute, hsi.1.1.1.1.2]
        · simp [hroute]
        · simp [hroute]
        · simp [batReqValid, hrun, hroute, slotAsk_of_not_free hfree]
      · obtain ⟨hcalm, hrv⟩ := h.bat hrun ho
        refine ⟨hcalm, hrv, ?_, ?_⟩
        · intro hresp
          simp [batRspReady, hrun, ho, hresp]
        by_cases hr : s.route = .translateOffer
        · exact Or.inl ⟨hr, rfl⟩
        · refine Or.inr ⟨hr, ?_⟩
          rw [← Bool.not_eq_true]
          intro hv
          have hask : slotAsk cfg s i .batCsr = true := by
            simpa [batReqValid, hrun, hr] using hv
          have hidle := (of_slotFree (slotFree_of_slotAsk hask)).2.1
          have hgrant : slotGrant cfg s i .batCsr = true := by
            simp [slotGrant, hask, batReqReady, hcalm.reqReady_eq, hin, hrv, hidle]
          exact ho' (nextOwner_of_slotGrant hgrant)
  obtain ⟨hcalm, hrv, hrsp, ⟨hr, hrun⟩ | ⟨hr, hv⟩⟩ := key
  · have hcap := @not_capture_of_translate cfg s i hrun hr
    have hvalid : batReqValid cfg s i = true := by simp [batReqValid, hrun, hr]
    have hready : batReqReady cfg s i = true := by
      simp [batReqReady, hcalm.reqReady_eq, hin, hrv, hr]
    refine ⟨Bat.calm_step hcalm hin hcap, ?_⟩
    rw [Bat.responseValid_step hcalm hin hcap]
    have hfire : Bat.requestFire s.bat (batInput cfg s i) = true := by
      simp only [Bat.requestFire, Bool.and_eq_true]
      exact ⟨hvalid, hready⟩
    rw [hfire, Bool.true_or, eq_comm, decide_eq_true_eq, nextRoute_translateResponse]
    exact Or.inl ⟨hr, hvalid, hready⟩
  · have hfire : Bat.requestFire s.bat (batInput cfg s i) = false := by
      simp [Bat.requestFire, batInput, hv]
    have hcap : Bat.captureFire cfg.bat s.bat (batInput cfg s i) = false := by
      simp [Bat.captureFire, hfire]
    refine ⟨Bat.calm_step hcalm hin hcap, ?_⟩
    have hno : nextRoute cfg s i ≠ .translateResponse := by
      rw [Ne, nextRoute_translateResponse]
      simp [hr, hrv]
    rw [Bat.responseValid_step hcalm hin hcap, hfire, Bool.false_or, hrv]
    by_cases hresp : s.route = .translateResponse
    · have hready : (batInput cfg s i).rspReady = true := hrsp hresp
      simp [hready, hno]
    · simp [hresp, hno]

/-- A running router only captures prepared block address writes. -/
theorem ctrl_batStore (hrst : i.rstN = true)
    (hrun' : (startFire cfg s i || s.running) = true) :
    (Bat.step cfg.bat s.bat (batInput cfg s i)).writeStore = false ∧
      ((Bat.step cfg.bat s.bat (batInput cfg s i)).write = true →
        (Bat.step cfg.bat s.bat (batInput cfg s i)).writePrepare = true) := by
  have hin : (batInput cfg s i).rstN = true := hrst
  cases hrun : s.running with
  | false =>
    have hne : nextOwner cfg s i ≠ .batCsr := by
      rcases (@ctrl_stopped cfg s i h hrun).2.2.2 with ho | ho <;> simp [ho]
    obtain ⟨hcalm, -⟩ := ctrl_bat h hrst hrun' hne
    exact ⟨hcalm.writeStore, by simp [hcalm.write]⟩
  | true =>
    obtain ⟨hstore, hprep⟩ := h.batStore hrun
    constructor
    · cases hw : s.bat.write with
      | false => simp [Bat.step, Bat.runState, hin, hstore, hw]
      | true => simp [Bat.step, Bat.runState, hin, hstore, hprep hw]
    · intro hw
      simp only [Bat.step, hin, if_true, Bat.runState] at hw ⊢
      cases hw0 : s.bat.write with
      | true =>
        rw [hw0, if_pos rfl] at hw
        cases hw
      | false =>
        rw [hw0, if_neg Bool.false_ne_true] at hw
        have hcap : Bat.captureFire cfg.bat s.bat (batInput cfg s i) = true := by
          by_contra hcap
          rw [if_neg hcap] at hw
          cases hw
        rw [if_pos hcap]
        simp only [Bat.captureFire, Bat.csrWriteCandidate, Bool.and_eq_true, Bool.or_eq_true,
          decide_eq_true_eq] at hcap
        rcases hcap.2.1.1 with hk | hk
        · have hk' : (batReq s i).kind = .sprWrite := hk
          simp only [batReq, hrun, Bool.not_true, Bool.false_eq_true, if_false] at hk'
          split_ifs at hk'
        · exact hk

/-- The same of the segment registers. -/
theorem ctrl_segment (hrst : i.rstN = true) (ho' : nextOwner cfg s i ≠ .segment) :
    Segment.Calm (Segment.step cfg.enableSegmentRegisters s.segment (segmentInput cfg s i)) ∧
      (Segment.step cfg.enableSegmentRegisters s.segment (segmentInput cfg s i)).rspValid =
        decide (nextRoute cfg s i = .segmentResponse) := by
  have hin : (segmentInput cfg s i).rstN = true := hrst
  have key : Segment.Calm s.segment ∧
      s.segment.rspValid = decide (s.route = .segmentResponse) ∧
      (s.route = .segmentResponse → segmentRspReady cfg s i = true) ∧
      ((s.route = .segmentOffer ∧ segmentReqValid cfg s i = true) ∨
        (s.route ≠ .segmentOffer ∧ segmentReqValid cfg s i = false)) := by
    by_cases ho : s.owner = .segment
    · have hsi : segmentServiceIdle s i = true := by
        by_contra hsi
        simp [nextOwner, ho, hsi] at ho'
      simp only [segmentServiceIdle, Bool.and_eq_true, Bool.not_eq_true'] at hsi
      obtain ⟨hfree, hroute, -⟩ := @Ctrl.requests_owned cfg s i h (by simp [ho])
      refine ⟨⟨hsi.1.2, hsi.2⟩, ?_, ?_, Or.inr ⟨?_, ?_⟩⟩
      · simp [hroute, hsi.1.1.2]
      · simp [hroute]
      · simp [hroute]
      · simp [segmentReqValid, hroute, slotAsk_of_not_free hfree]
    · obtain ⟨hcalm, hrv⟩ := h.segment ho
      refine ⟨hcalm, hrv, ?_, ?_⟩
      · intro hresp
        have hpt := h.paging (by simp [hresp, RouteState.paging])
        simp [segmentRspReady, hresp, hpt]
      by_cases hr : s.route = .segmentOffer
      · have hpt := h.paging (by simp [hr, RouteState.paging])
        exact Or.inl ⟨hr, by simp [segmentReqValid, hr, hpt]⟩
      · refine Or.inr ⟨hr, ?_⟩
        rw [← Bool.not_eq_true]
        intro hv
        have hask : slotAsk cfg s i .segment = true := by
          simpa [segmentReqValid, hr] using hv
        have hidle := (of_slotFree (slotFree_of_slotAsk hask)).2.1
        have hgrant : slotGrant cfg s i .segment = true := by
          simp [slotGrant, hask, segmentReqReady, hcalm.reqReady_eq, Segment.rspFree, hin, hrv,
            hidle]
        exact ho' (nextOwner_of_slotGrant hgrant)
  obtain ⟨hcalm, hrv, hrsp, ⟨hr, hvalid⟩ | ⟨hr, hv⟩⟩ := key
  · have hready : segmentReqReady cfg s i = true := by
      simp [segmentReqReady, hcalm.reqReady_eq, Segment.rspFree, hin, hrv, hr]
    have hfire : Segment.requestFire s.segment (segmentInput cfg s i) = true := by
      simp only [Segment.requestFire, Bool.and_eq_true]
      exact ⟨hvalid, hready⟩
    have hhold : Segment.holdFire cfg.enableSegmentRegisters s.segment
        (segmentInput cfg s i) = false := by
      simp [Segment.holdFire, Segment.prepareAllowed, segmentInput, segmentReq, hr]
    refine ⟨Segment.calm_step hcalm hin hhold, ?_⟩
    rw [Segment.rspValid_step hin, hfire, Bool.true_or, eq_comm, decide_eq_true_eq,
      nextRoute_segmentResponse]
    exact Or.inl ⟨hr, hvalid, hready⟩
  · have hfire : Segment.requestFire s.segment (segmentInput cfg s i) = false := by
      simp [Segment.requestFire, segmentInput, hv]
    have hhold : Segment.holdFire cfg.enableSegmentRegisters s.segment
        (segmentInput cfg s i) = false := by
      simp [Segment.holdFire, hfire]
    refine ⟨Segment.calm_step hcalm hin hhold, ?_⟩
    have hno : nextRoute cfg s i ≠ .segmentResponse := by
      rw [Ne, nextRoute_segmentResponse]
      simp [hr, hrv]
    rw [Segment.rspValid_step hin, hfire, Bool.false_or, hrv]
    by_cases hresp : s.route = .segmentResponse
    · have hready : (segmentInput cfg s i).rspReady = true := hrsp hresp
      simp [hready, hno]
    · simp [hresp, hno]

omit h in
/-- A request to the TLB is a lookup, or of the requester that owns the slot next. -/
theorem tlbReq_cases (hv : tlbReqValid cfg s i = true) :
    (s.route = .pageOffer ∧ (tlbReq cfg s i).kind = .lookup) ∨
      (s.route = .idle ∧ ownsTlb (nextOwner cfg s i) = true ∧
        (nextOwner cfg s i ≠ .tlbMgmt → Tlb.isPrepare (tlbReq cfg s i) = true)) := by
  by_cases hr : s.route = .pageOffer
  · exact Or.inl ⟨hr, by simp [tlbReq, hr]⟩
  · right
    obtain ⟨o, hask, ho⟩ : ∃ o, slotAsk cfg s i o = true ∧
        (o = .tlbMgmt ∨ o = .tlbInv ∨ o = .tlbFill) := by
      simp only [tlbReqValid, hr, decide_false, Bool.and_false, Bool.or_false,
        Bool.or_eq_true] at hv
      rcases hv with (hv | hv) | hv
      · exact ⟨_, hv, Or.inl rfl⟩
      · exact ⟨_, hv, Or.inr (Or.inl rfl)⟩
      · exact ⟨_, hv, Or.inr (Or.inr rfl)⟩
    obtain ⟨-, hidle, hown, -, -, -, htlb, -⟩ := of_slotFree (slotFree_of_slotAsk hask)
    have hready : tlbReqReady cfg s i = true := by
      simp only [tlbTransactionIdle, Bool.and_eq_true, Bool.not_eq_true'] at htlb
      simp [tlbReqReady, Tlb.reqReady, Tlb.rspFree, htlb]
    have hgrant : slotGrant cfg s i o = true := by
      rcases ho with rfl | rfl | rfl <;> simp [slotGrant, hask, hready]
    have hnext := nextOwner_of_slotGrant hgrant
    refine ⟨hidle, ?_, ?_⟩
    · rw [hnext]
      rcases ho with rfl | rfl | rfl <;> rfl
    · intro hne
      rw [hnext] at hne
      rcases ho with rfl | rfl | rfl
      · exact absurd rfl hne
      · simp [Tlb.isPrepare, tlbReq, hr, tlbUpdateField, hask]
      · have hinv := slotAsk_higher hask (p := .tlbInv) (by simp [higher])
        simp [Tlb.isPrepare, tlbReq, hr, tlbUpdateField, hask, hinv]

/-- What the TLB service is doing when no requester owns it next. -/
theorem tlb_between (ho' : ownsTlb (nextOwner cfg s i) = false) : Tlb.Calm s.tlb ∧
    (s.tlb.lookup || s.tlb.responseValid) = decide (s.route = .pageResponse) ∧
    (s.tlb.lookup && s.tlb.responseValid) = false ∧
    (s.route = .pageResponse → tlbRspReady cfg s i = true) ∧
    (s.tlb.lookup = true → s.tlb.request.kind = .lookup) ∧
    ((s.route = .pageOffer ∧ tlbReqValid cfg s i = true) ∨
      (s.route ≠ .pageOffer ∧ tlbReqValid cfg s i = false)) := by
  cases ho : ownsTlb s.owner with
  | true =>
    have hti : tlbTransactionIdle s i = true := by
      by_contra hti
      cases hown : s.owner <;> simp_all [ownsTlb, nextOwner]
    simp only [tlbTransactionIdle, Bool.and_eq_true, Bool.not_eq_true'] at hti
    have hne : s.owner ≠ .none := by
      intro hne
      simp [hne, ownsTlb] at ho
    obtain ⟨hfree, hroute, -⟩ := @Ctrl.requests_owned cfg s i h hne
    refine ⟨⟨hti.1.2, hti.2⟩, ?_, ?_, ?_, ?_, Or.inr ⟨?_, ?_⟩⟩
    · simp [hroute, hti.1.1.1.2, hti.1.1.2]
    · simp [hti.1.1.2]
    · simp [hroute]
    · simp [hti.1.1.2]
    · simp [hroute]
    · simp [tlbReqValid, hroute, slotAsk_of_not_free hfree]
  | false =>
    obtain ⟨hcalm, hrv, honce, hkind⟩ := h.tlb ho
    refine ⟨hcalm, hrv, honce, ?_, hkind, ?_⟩
    · intro hresp
      have hpt := h.paging (by simp [hresp, RouteState.paging])
      simp [tlbRspReady, hresp, hpt]
    by_cases hr : s.route = .pageOffer
    · have hpt := h.paging (by simp [hr, RouteState.paging])
      exact Or.inl ⟨hr, by simp [tlbReqValid, hr, hpt]⟩
    · refine Or.inr ⟨hr, ?_⟩
      rw [← Bool.not_eq_true]
      intro hv
      rcases tlbReq_cases hv with ⟨hr', -⟩ | ⟨-, hown, -⟩
      · exact hr hr'
      · rw [hown] at ho'
        cases ho'

/-- The same of the TLB service, which takes two edges to answer. -/
theorem ctrl_tlb (hrst : i.rstN = true) (ho' : ownsTlb (nextOwner cfg s i) = false) :
    Tlb.Calm (Tlb.step cfg.tlb s.tlb (tlbInput cfg s i)) ∧
      ((Tlb.step cfg.tlb s.tlb (tlbInput cfg s i)).lookup ||
        (Tlb.step cfg.tlb s.tlb (tlbInput cfg s i)).responseValid) =
        decide (nextRoute cfg s i = .pageResponse) ∧
      ((Tlb.step cfg.tlb s.tlb (tlbInput cfg s i)).lookup &&
        (Tlb.step cfg.tlb s.tlb (tlbInput cfg s i)).responseValid) = false ∧
      ((Tlb.step cfg.tlb s.tlb (tlbInput cfg s i)).lookup = true →
        (Tlb.step cfg.tlb s.tlb (tlbInput cfg s i)).request.kind = .lookup) := by
  have hin : (tlbInput cfg s i).rstN = true := hrst
  obtain ⟨hcalm, hrv, honce, hrsp, hkind, hreq⟩ := @tlb_between cfg s i h ho'
  have hhold : Tlb.holdFire cfg.tlb s.tlb (tlbInput cfg s i) = false := by
    cases hl : s.tlb.lookup with
    | false => simp [Tlb.holdFire, hl]
    | true => simp [Tlb.holdFire, Tlb.prepareAllowed, hkind hl]
  refine ⟨Tlb.calm_step hcalm hin hhold, ?_⟩
  rw [Tlb.lookup_step hin, Tlb.responseValid_step hin]
  rcases hreq with ⟨hr, hvalid⟩ | ⟨hr, hv⟩
  · have hidle : (s.tlb.lookup || s.tlb.responseValid) = false := by simp [hrv, hr]
    obtain ⟨hl, hrv0⟩ := Bool.or_eq_false_iff.1 hidle
    have hready : tlbReqReady cfg s i = true := by
      simp [tlbReqReady, hcalm.reqReady_eq, Tlb.rspFree, hrst, hl, hrv0]
    have hfire : Tlb.requestFire s.tlb (tlbInput cfg s i) = true := by
      simp only [Tlb.requestFire, Bool.and_eq_true]
      exact ⟨hvalid, hready⟩
    have hnext : nextRoute cfg s i = .pageResponse :=
      nextRoute_pageResponse.2 (Or.inl ⟨hr, hvalid, hready⟩)
    refine ⟨by simp [hl, hrv0, hfire, hnext], by simp [hl, hrv0], ?_⟩
    intro _
    rw [Tlb.request_step hin hfire]
    simp [Tlb.capture, tlbInput, tlbReq, hr]
  · have hfire : Tlb.requestFire s.tlb (tlbInput cfg s i) = false := by
      simp [Tlb.requestFire, tlbInput, hv]
    have hnext : nextRoute cfg s i = .pageResponse ↔
        s.route = .pageResponse ∧ s.tlb.responseValid = false := by
      rw [nextRoute_pageResponse]
      simp [hr]
    rw [hfire, Bool.and_false]
    refine ⟨?_, by simp, by simp⟩
    rw [Bool.false_or, Bool.eq_iff_iff, decide_eq_true_eq, hnext]
    by_cases hresp : s.route = .pageResponse
    · have hready : (tlbInput cfg s i).rspReady = true := hrsp hresp
      simp only [hresp, decide_true] at hrv
      rw [hready, Bool.not_true, Bool.false_and, Bool.or_false]
      cases hl : s.tlb.lookup <;> cases hv0 : s.tlb.responseValid <;> simp_all
    · have hidle : (s.tlb.lookup || s.tlb.responseValid) = false := by simp [hrv, hresp]
      obtain ⟨hl, hrv0⟩ := Bool.or_eq_false_iff.1 hidle
      simp [hl, hrv0, hresp]

/-- A prepared update is what its owner classifies. -/
theorem ctrl_tlbKind (hrst : i.rstN = true)
    (ho' : nextOwner cfg s i = .tlbInv ∨ nextOwner cfg s i = .tlbFill)
    (hl' : (Tlb.step cfg.tlb s.tlb (tlbInput cfg s i)).lookup = true) :
    Tlb.isPrepare (Tlb.step cfg.tlb s.tlb (tlbInput cfg s i)).request = true := by
  have hin : (tlbInput cfg s i).rstN = true := hrst
  rw [Tlb.lookup_step hin, Bool.and_eq_true] at hl'
  have hvalid : tlbReqValid cfg s i = true := by
    have hfire := hl'.2
    simp only [Tlb.requestFire, Bool.and_eq_true] at hfire
    exact hfire.1
  rw [Tlb.request_step hin hl'.2]
  rcases tlbReq_cases hvalid with ⟨hr, -⟩ | ⟨-, -, hprep⟩
  · have hbusy := h.busy (by simp [hr])
    rw [nextOwner_none (h.owner_none hbusy) (slotFree_of_busy hbusy)] at ho'
    simp at ho'
  · have hp := hprep (by rcases ho' with ho' | ho' <;> simp [ho'])
    exact hp

end Services

/-! ## Over an edge -/

section Step

variable {cfg : Config} {s : State} {i : Input}

theorem step_run (hrst : i.rstN = true) : step cfg s i = runState cfg s i := by
  rw [step, if_pos hrst]

theorem step_reset (hrst : i.rstN = false) : step cfg s i = resetState cfg s i := by
  rw [step, hrst, if_neg Bool.false_ne_true]

/-- The services are reset with the router. -/
theorem services_reset (hrst : i.rstN = false) :
    Bat.step cfg.bat s.bat (batInput cfg s i) = Bat.resetState ∧
      Segment.step cfg.enableSegmentRegisters s.segment (segmentInput cfg s i) =
        Segment.resetState s.segment ∧
      Tlb.step cfg.tlb s.tlb (tlbInput cfg s i) =
        Tlb.resetState cfg.tlb s.tlb (tlbInput cfg s i) := by
  simp [Bat.step, batInput, Segment.step, segmentInput, Tlb.step, tlbInput, hrst]

/-- The control of a router just reset. -/
theorem ctrl_reset (hrst : i.rstN = false) : Ctrl cfg (step cfg s i) := by
  obtain ⟨hbat, hseg, htlb⟩ := @services_reset cfg s i hrst
  rw [step_reset hrst]
  constructor
  all_goals simp [resetState, RouteState.paging, lanesIdle, hbat, hseg, htlb, Bat.resetState,
    Segment.resetState, Tlb.resetState, ownsTlb]
  · exact ⟨rfl, rfl⟩
  · exact ⟨rfl, rfl⟩

/-- **The control of the router**, over an edge. -/
theorem ctrl_step (h : Ctrl cfg s) : Ctrl cfg (step cfg s i) := by
  cases hrst : i.rstN with
  | false => exact ctrl_reset hrst
  | true =>
    obtain ⟨hfd, hfi, hpg⟩ := @ctrl_faults cfg s i h
    rw [step_run hrst]
    constructor
    · exact ctrl_route_valid h
    · exact ctrl_slow_i h
    · exact ctrl_slow_d h
    · exact ctrl_dState_fatal h
    · exact hfd
    · exact hfi
    · exact hpg
    · intro hs'
      obtain ⟨hresp, hds, hdd⟩ := @ctrl_second cfg s i h hs'
      refine ⟨hresp, ?_⟩
      simp only [runState, hds, Bool.false_eq_true, if_false]
      rcases hdd with ha | hdd <;> simp [*]
    · intro ho'
      exact lanesIdle_iff.2 (ctrl_owned h ho')
    · intro hrun'
      have hrun : s.running = false := by
        simp only [runState, Bool.or_eq_false_iff] at hrun'
        exact hrun'.2
      obtain ⟨hi, hd, -, ho⟩ := @ctrl_stopped cfg s i h hrun
      exact ⟨lanesIdle_iff.2 ⟨hi, hd⟩, ho⟩
    · intro hrun' ho'
      exact ctrl_bat h hrst hrun' ho'
    · intro hrun'
      exact ctrl_batStore h hrst hrun'
    · intro ho'
      exact ctrl_segment h hrst ho'
    · intro ho'
      exact ctrl_tlb h hrst ho'
    · intro ho' hl'
      exact ctrl_tlbKind h hrst ho' hl'

/-- What a reset establishes and an edge out of reset keeps holds along a run. -/
theorem along_run (r : Run (machine cfg)) {I : State → Prop}
    (hreset : ∀ s i, i.rstN = false → I (step cfg s i))
    (hstep : ∀ n, (r.input n).rstN = true → I (r.state n) →
      I (runState cfg (r.state n) (r.input n))) (n : ℕ) : I (r.state n) := by
  induction n with
  | zero =>
    obtain ⟨s₀, i, hrst, heq⟩ := r.initial
    rw [Run.state_zero, heq]
    exact hreset s₀ i hrst
  | succ n ih =>
    show I (step cfg (r.state n) (r.input n))
    cases hrst : (r.input n).rstN with
    | true =>
      rw [step_run hrst]
      exact hstep n hrst ih
    | false => exact hreset _ _ hrst

/-- The control of the router, along a run. -/
theorem ctrl_run (r : Run (machine cfg)) (n : ℕ) : Ctrl cfg (r.state n) := by
  induction n with
  | zero =>
    obtain ⟨s₀, i, hrst, heq⟩ := r.initial
    rw [Run.state_zero, heq]
    exact ctrl_reset hrst
  | succ n ih => exact ctrl_step ih

end Step

end Router
end SloPPC603
