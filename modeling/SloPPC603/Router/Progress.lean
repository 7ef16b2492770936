import SloPPC603.Clocked.LeadsTo
import SloPPC603.Router.Pairing

/-!
# Every request is responded to

Among surroundings that keep the ports moving, an accepted request is responded to unless
the router has stopped.

* `Serves` — surroundings that accept what is offered, answer what they owe, and take
  what they are given.
* `rank_step` — the translation sequence comes nearer its end on every edge.
* `slow_leadsTo`, `wait_leadsTo` — a translated and a waiting lane move on.
* `data_responds`, `fetch_responds` — every accepted request is responded to.
-/

namespace SloPPC603
namespace Router

open Clocked

/-! ## The surroundings -/

/-- A physical port answers what it owes, and holds an answer until it is taken. -/
structure Answers {Q A B P : Type*} (t : ℕ → Traffic Q A B P) (valid ready : ℕ → Bool)
    (answer : ℕ → B) : Prop where
  /-- It answers nothing else. -/
  once : ∀ n, valid n = true → (t n).Owed
  answers : ∀ n, ∃ m, n ≤ m ∧ ((t m).Owed → valid m = true)
  held : ∀ n, valid n = true → ready n = false →
    valid (n + 1) = true ∧ answer (n + 1) = answer n

/-- What is offered is taken in the end. -/
def Takes (valid ready : ℕ → Bool) : Prop := ∀ n, ∃ m, n ≤ m ∧ (valid m = true → ready m = true)

/-- An answer that is never taken stays. -/
theorem Answers.stays {Q A B P : Type*} {t : ℕ → Traffic Q A B P} {valid ready : ℕ → Bool}
    {answer : ℕ → B} (h : Answers t valid ready answer) {n : ℕ} (howed : ∀ m, n ≤ m → (t m).Owed)
    (hno : ∀ m, n ≤ m → valid m = true → ready m = false) :
    ∃ k, n ≤ k ∧ ∀ m, k ≤ m → valid m = true := by
  obtain ⟨k, hk, hv⟩ := h.answers n
  refine ⟨k, hk, ?_⟩
  intro m hm
  induction m, hm using Nat.le_induction with
  | base => exact hv (howed k hk)
  | succ m hm ih => exact (h.held m ih (hno m (hk.trans hm) ih)).1

section Serves

variable {cfg : Config} (r : Run (machine cfg))

/-- Surroundings that keep the ports moving. -/
structure Serves : Prop where
  running : ∀ n, (r.input n).rstN = true
  projected : ∀ n, ProjectionAgrees cfg (r.input n)
  fetchPort : Takes (fun n => pimemReqValid cfg (r.state n) (r.input n))
    (fun n => (r.input n).pimemReqReady)
  fetchAnswers : Answers (fun n => (log r n).fetch) (fun n => (r.input n).pimemRspValid)
    (fun n => pimemRspReady cfg (r.state n) (r.input n)) (fun n => (r.input n).pimemRsp)
  fetchTaker : Takes (fun n => imemRspValid cfg (r.state n) (r.input n))
    (fun n => (r.input n).imemRspReady)
  dataPort : Takes (fun n => pdmemReqValid cfg (r.state n) (r.input n))
    (fun n => (r.input n).pdmemReqReady)
  dataAnswers : Answers (fun n => (log r n).data) (fun n => (r.input n).pdmemRspValid)
    (fun n => pdmemRspReady (r.state n) (r.input n)) (fun n => (r.input n).pdmemRsp)
  dataTaker : Takes (fun n => dmemRspValid (r.state n) (r.input n))
    (fun n => (r.input n).dmemRspReady)

end Serves

/-! ## The sequence comes to an end -/

section Rank

variable {cfg : Config} {s : State} {i : Input}

/-- How many edges the sequence is from its end, at most. -/
def rank (s : State) : ℕ :=
  match s.route with
  | .translateOffer => 7
  | .translateResponse => 6
  | .segmentOffer => 5
  | .segmentResponse => 4
  | .pageOffer => 3
  | .pageResponse => if s.tlb.responseValid then 1 else 2
  | _ => 0

/-- What a translation sequence finds when it comes to its end. -/
theorem of_rank_zero (hc : Ctrl cfg s) (hz : rank s = 0) : s.route = .idle ∨
    s.route = .dataFaultResponse ∨ s.route = .ifetchFaultResponse ∨ s.route = .ifetchFatal := by
  have hv := hc.route_valid
  cases hr : s.route <;> simp [rank, hr] at hz hv ⊢
  split_ifs at hz

/-- The services answer the sequence without delay. -/
theorem services_ready (hc : Ctrl cfg s) (hrst : i.rstN = true) (hr : s.route ≠ .idle) :
    (s.route = .translateOffer → (batReqValid cfg s i && batReqReady cfg s i) = true) ∧
      (s.route = .translateResponse → s.bat.responseValid = true) ∧
      (s.route = .segmentOffer → (segmentReqValid cfg s i && segmentReqReady cfg s i) = true) ∧
      (s.route = .segmentResponse → s.segment.rspValid = true) ∧
      (s.route = .pageOffer → (tlbReqValid cfg s i && tlbReqReady cfg s i) = true ∧
        s.tlb.lookup = false ∧ s.tlb.responseValid = false) ∧
      (s.route = .pageResponse → s.tlb.responseValid = false → s.tlb.lookup = true) := by
  have hb := hc.busy hr
  have hrun := hc.is_running hb
  obtain ⟨hcalmB, hrvB⟩ := hc.bat hrun (by simp [hc.owner_none hb])
  obtain ⟨hcalmS, hrvS⟩ := hc.segment (by simp [hc.owner_none hb])
  obtain ⟨hcalmT, hrvT, -, -⟩ := busy_tlb hc hb
  have hpt := hc.paging
  refine ⟨?_, ?_, ?_, ?_, ?_, ?_⟩
  · intro ht
    simp [batReqValid, batReqReady, hcalmB.reqReady_eq, hrvB, ht, hrun, batInput, hrst]
  · intro ht
    simp [hrvB, ht]
  · intro ht
    have hen := hpt (by simp [ht, RouteState.paging])
    simp [segmentReqValid, segmentReqReady, hcalmS.reqReady_eq, Segment.rspFree, hrvS, ht, hen,
      segmentInput, hrst]
  · intro ht
    simp [hrvS, ht]
  · intro ht
    have hen := hpt (by simp [ht, RouteState.paging])
    have hidle : (s.tlb.lookup || s.tlb.responseValid) = false := by simp [hrvT, ht]
    obtain ⟨hl, hv⟩ := Bool.or_eq_false_iff.1 hidle
    exact ⟨by simp [tlbReqValid, tlbReqReady, hcalmT.reqReady_eq, Tlb.rspFree, hl, hv, ht, hen,
      hrst], hl, hv⟩
  · intro ht hv
    simpa [hv, ht] using hrvT

/-- **The sequence comes nearer its end on every edge.** -/
theorem rank_step (hc : Ctrl cfg s) (hrst : i.rstN = true) (hpos : 0 < rank s) :
    rank (runState cfg s i) < rank s := by
  have hr : s.route ≠ .idle := by
    intro hr
    simp [rank, hr] at hpos
  obtain ⟨hbo, hbr, hso, hsr, hpo, hpr⟩ := services_ready hc hrst hr
  have hnext : (runState cfg s i).route = nextRoute cfg s i := rfl
  cases hs : s.route <;> simp only [rank, hs] at hpos ⊢ <;> simp only [hnext, nextRoute, hs]
  case translateOffer => simp [hbo hs]
  case translateResponse =>
    rw [hbr hs]
    split_ifs <;> simp_all
  case segmentOffer => simp [hso hs]
  case segmentResponse =>
    rw [hsr hs]
    split_ifs <;> simp_all
  case pageOffer =>
    obtain ⟨hfire, -, -⟩ := hpo hs
    rw [if_pos hfire]
    dsimp only
    split_ifs <;> omega
  case pageResponse =>
    cases hv : s.tlb.responseValid with
    | true =>
      simp only [Bool.not_true, Bool.false_eq_true, if_false, if_true]
      split_ifs <;> simp
    | false =>
      have hl := hpr hs hv
      have hv' : (runState cfg s i).tlb.responseValid = true := by
        show (Tlb.step cfg.tlb s.tlb (tlbInput cfg s i)).responseValid = true
        rw [Tlb.responseValid_step hrst, hl, Bool.true_or]
      simp [hv']
  all_goals cases hpos

end Rank

/-! ## Stopping -/

section Stop

variable {cfg : Config} {s : State} {i : Input}

/-- `ifetch_fatal_q` shows that the sequence or the fetch lane has stopped. -/
def Stops (s : State) : Prop :=
  s.ifetchFatal = true ↔ s.route = .ifetchFatal ∨ s.iState = .fatal

/-- The sequence stops on a fetch whose denial has no type. -/
theorem nextRoute_ifetchFatal :
    nextRoute cfg s i = .ifetchFatal ↔ s.route = .ifetchFatal ∨ fetchFatal cfg s = true := by
  constructor
  · intro hr
    rcases of_nextRoute_fatal hr with ⟨hq, ⟨hd, ht⟩ | hd | ⟨hd, ht⟩⟩ | hro
    · exact Or.inr (by simp [fetchFatal, hq, hd, ht])
    · exact Or.inr (by simp [fetchFatal, hq, hd])
    · exact Or.inr (by simp [fetchFatal, hq, hd, ht])
    · exact Or.inl hro
  · rintro (hr | hf)
    · simp [nextRoute, hr]
    · simp only [fetchFatal, Bool.and_eq_true, Bool.or_eq_true, Bool.not_eq_true'] at hf
      obtain ⟨hq, (⟨hd, ht⟩ | hd) | ⟨hd, ht⟩⟩ := hf
      · simp only [batDenied, batReply, Bool.and_eq_true, decide_eq_true_eq,
          Bool.not_eq_true'] at hd
        simp [nextRoute, hd, hq, ht]
      · simp only [snapshotBad, Bool.and_eq_true, decide_eq_true_eq, Bool.not_eq_true'] at hd
        simp [nextRoute, hd, hq]
      · obtain ⟨hr, hv, hallow, hds⟩ := of_pageDenied hd
        simp [nextRoute, hr, hv, hallow, hds, hq, ht]

/-- The fetch lane stops on an error it cannot report. -/
theorem nextIState_fatal :
    nextIState cfg s i = .fatal ↔ s.iState = .fatal ∨ iError cfg s i = true := by
  have hacc : iAcceptState cfg s i ≠ .fatal := by
    simp only [iAcceptState]
    split_ifs <;> simp
  constructor
  · intro hl
    unfold nextIState at hl
    cases hs : s.iState with
    | fatal => exact Or.inl rfl
    | _ =>
      simp only [hs] at hl
      split_ifs at hl <;> simp_all
  · rintro (hs | herr)
    · simp [nextIState, hs]
    · have hs : s.iState = .response := by
        simp only [iError, Bool.and_eq_true, decide_eq_true_eq] at herr
        exact herr.1.1.1
      simp [nextIState, hs, herr]

theorem stops_step (hc : Ctrl cfg s) (h : Stops s) : Stops (runState cfg s i) := by
  have hroute : (runState cfg s i).route = nextRoute cfg s i := rfl
  have hlane : (runState cfg s i).iState = nextIState cfg s i := rfl
  have hd := hc.dState_fatal
  have hv := hc.route_valid
  unfold Stops at h ⊢
  rw [hroute, hlane, nextRoute_ifetchFatal, nextIState_fatal]
  simp only [runState, hd, hv, decide_false, Bool.or_false, Bool.or_eq_true, h]
  tauto

theorem stops_run (r : Run (machine cfg)) (n : ℕ) : Stops (r.state n) := by
  refine along_run r (fun s i hrst => ?_) (fun n _ ih => stops_step (ctrl_run r n) ih) n
  rw [step_reset hrst]
  simp [Stops, resetState]

end Stop

/-! ## The lanes, by side -/

/-- The state of a lane: the instruction lane's if `b`. -/
def laneState (s : State) (b : Bool) : LaneState := if b then s.iState else s.dState

/-- The lane is chosen on this edge. -/
def chooseLane (cfg : Config) (s : State) (i : Input) (b : Bool) : Bool :=
  if b then chooseInstruction cfg s i else chooseData cfg s i

/-- It is the lane's turn when both lanes want the sequence. -/
def laneTurn (s : State) (b : Bool) : Bool := if b then s.lastGrantData else !s.lastGrantData

/-- The state in which the lane's fault waits to be taken. -/
def faultRoute (b : Bool) : RouteState := if b then .ifetchFaultResponse else .dataFaultResponse

/-- The lane's response is valid. -/
def laneRspValid (cfg : Config) (s : State) (i : Input) (b : Bool) : Bool :=
  if b then imemRspValid cfg s i else dmemRspValid s i

/-- The lane's response is taken. -/
def laneRspReady (i : Input) (b : Bool) : Bool := if b then i.imemRspReady else i.dmemRspReady

section Lanes

variable {cfg : Config} {s : State} {i : Input} {b : Bool}

theorem laneState_slow (hc : Ctrl cfg s) :
    laneState s b = .slow ↔ s.route ≠ .idle ∧ s.request.instruction = b := by
  cases b with
  | true => exact hc.slow_i
  | false => exact hc.slow_d

/-- A waiting lane waits until it is chosen. -/
theorem wait_step (hs : laneState s b = .wait) :
    laneState (runState cfg s i) b = if chooseLane cfg s i b then .slow else .wait := by
  cases b <;> simp only [laneState, Bool.false_eq_true, if_false, if_true] at hs ⊢ <;>
    simp [runState, nextIState, nextDState, hs, chooseLane]

/-- A waiting lane is chosen when the sequence is free and it is its turn. -/
theorem choose_of_turn (hrst : i.rstN = true) (hs : laneState s b = .wait)
    (hr : s.route = .idle) (ht : laneTurn s b = true) : chooseLane cfg s i b = true := by
  cases b <;> simp only [laneState, laneTurn, Bool.false_eq_true, if_false, if_true] at hs ht
  · simp only [Bool.not_eq_true'] at ht
    simp [chooseLane, chooseData, wantData, hs, hr, hrst, ht]
  · simp [chooseLane, chooseInstruction, wantInstruction, hs, hr, hrst, ht]

/-- With the sequence free, a waiting lane is chosen or gets its turn. -/
theorem turn_of_idle (hrst : i.rstN = true) (hs : laneState s b = .wait)
    (hr : s.route = .idle) :
    chooseLane cfg s i b = true ∨ laneTurn (runState cfg s i) b = true := by
  cases b with
  | false =>
    cases hch : chooseData cfg s i with
    | true => exact Or.inl hch
    | false =>
      have hd : s.dState = .wait := hs
      have hi : chooseInstruction cfg s i = true := by
        simp only [chooseData, wantData, hd, hr, hrst, decide_true, Bool.true_or,
          Bool.true_and, Bool.or_eq_false_iff, Bool.not_eq_false'] at hch
        simp [chooseInstruction, hch.1, hr, hrst, hch.2]
      exact Or.inr (by simp [laneTurn, runState, choose, hi, hch])
  | true =>
    cases hch : chooseInstruction cfg s i with
    | true => exact Or.inl hch
    | false =>
      have hw : s.iState = .wait := hs
      have hd : chooseData cfg s i = true := by
        simp only [chooseInstruction, wantInstruction, hw, hr, hrst, decide_true, Bool.true_or,
          Bool.true_and, Bool.or_eq_false_iff, Bool.not_eq_false'] at hch
        simp [chooseData, hch.1, hr, hrst, hch.2]
      exact Or.inr (by simp [laneTurn, runState, choose, hd])

/-- A running sequence leaves the turn as it is. -/
theorem turn_of_busy (hr : s.route ≠ .idle) :
    laneTurn (runState cfg s i) b = laneTurn s b := by
  obtain ⟨hi, hd⟩ := @choose_of_route cfg s i hr
  simp [laneTurn, runState, choose, hi, hd]

/-- A slow lane stays so, goes to the physical port, or delivers its fault. -/
theorem slow_step (hs : laneState s b = .slow) :
    laneState (runState cfg s i) b = .slow ∨ laneState (runState cfg s i) b = .offer ∨
      (s.route = faultRoute b ∧ laneRspReady i b = true) := by
  cases b <;> simp only [laneState, Bool.false_eq_true, if_false, if_true] at hs ⊢ <;>
    simp only [runState, nextIState, nextDState, hs, faultRoute, laneRspReady] <;>
    split_ifs <;> simp_all

/-- A fault stays until it is taken. -/
theorem fault_step (hr : s.route = faultRoute b) :
    (runState cfg s i).route = if laneRspReady i b then .idle else faultRoute b := by
  cases b <;> simp only [faultRoute, Bool.false_eq_true, if_false, if_true] at hr ⊢ <;>
    simp [runState, nextRoute, hr, laneRspReady]

theorem laneRspValid_of_fault (hc : Ctrl cfg s) (hrst : i.rstN = true)
    (hr : s.route = faultRoute b) : laneRspValid cfg s i b = true := by
  cases b with
  | false =>
    have hr' : s.route = .dataFaultResponse := hr
    have hd := hc.slow_d.2 ⟨by simp [hr'], hc.fault_d hr'⟩
    simp [laneRspValid, dmemRspValid, hrst, hd, hr']
  | true =>
    have hr' : s.route = .ifetchFaultResponse := hr
    have hi := hc.slow_i.2 ⟨by simp [hr'], hc.fault_i (Or.inl hr')⟩
    simp [laneRspValid, imemRspValid, hrst, hi, hr']

end Lanes

/-! ## Along a run -/

section Run

variable {cfg : Config} (r : Run (machine cfg))

/-- The responses of a lane. -/
def given (b : Bool) (n : ℕ) : ℕ :=
  if b then (log r n).fetch.responses.length else (log r n).data.responses.length

/-- The lane is in one of its states. -/
def InState (b : Bool) (l : LaneState) (n : ℕ) : Prop := laneState (r.state n) b = l

/-- The router has stopped fetching. -/
def Stopped (n : ℕ) : Prop := (r.state n).ifetchFatal = true

variable {r}

theorem given_mono_step (hrst : ∀ n, (r.input n).rstN = true) (b : Bool) (n : ℕ) :
    given r b n ≤ given r b (n + 1) := by
  have hlog : log r (n + 1) = (log r n).update cfg (r.state n) (r.input n) := rfl
  cases b <;> simp [given, hlog, Log.update, hrst n, Traffic.add]

theorem given_mono (hrst : ∀ n, (r.input n).rstN = true) (b : Bool) {m n : ℕ} (h : m ≤ n) :
    given r b m ≤ given r b n := by
  induction n, h using Nat.le_induction with
  | base => exact le_rfl
  | succ n _ ih => exact ih.trans (given_mono_step hrst b n)

theorem state_run (hrst : ∀ n, (r.input n).rstN = true) (n : ℕ) :
    r.state (n + 1) = runState cfg (r.state n) (r.input n) := by
  show step cfg (r.state n) (r.input n) = _
  rw [step_run (hrst n)]

variable (hs : Serves r)
include hs

theorem takes_response (b : Bool) : Takes (fun n => laneRspValid cfg (r.state n) (r.input n) b)
    (fun n => laneRspReady (r.input n) b) := by
  cases b with
  | false => exact hs.dataTaker
  | true => exact hs.fetchTaker

/-- A fault taken is a response given. -/
theorem given_of_fault {b : Bool} {n : ℕ} (hr : (r.state n).route = faultRoute b)
    (hready : laneRspReady (r.input n) b = true) : given r b n < given r b (n + 1) := by
  have hrst := hs.running n
  have hc := ctrl_run r n
  have hlog : log r (n + 1) = (log r n).update cfg (r.state n) (r.input n) := rfl
  cases b with
  | false =>
    have hr' : (r.state n).route = .dataFaultResponse := hr
    have hslow := hc.slow_d.2 ⟨by simp [hr'], hc.fault_d hr'⟩
    have hfin := @not_dFinish (r.state n) (r.input n) (by simp [hslow])
    have hready' : (r.input n).dmemRspReady = true := hready
    simp [given, hlog, Log.update, hrst, Traffic.add, dataGiven_eq hc hrst, hfin, hr', hready']
  | true =>
    have hr' : (r.state n).route = .ifetchFaultResponse := hr
    have hslow := hc.slow_i.2 ⟨by simp [hr'], hc.fault_i (Or.inl hr')⟩
    have hfin := (@not_iFinish cfg (r.state n) (r.input n) (by simp [hslow])).1
    have hready' : (r.input n).imemRspReady = true := hready
    simp [given, hlog, Log.update, hrst, Traffic.add, fetchGiven_eq hc hrst, hfin, hr', hready']

/-- A fault is taken in the end, and what a busy sequence leaves alone holds until then. -/
theorem fault_leadsTo (b : Bool) {X : ℕ → Prop}
    (hX : ∀ n, X n → (r.state n).route ≠ .idle → X (n + 1)) :
    LeadsTo (fun n => (r.state n).route = faultRoute b ∧ X n)
      (fun n => (r.state n).route = faultRoute b ∧ X n ∧
        laneRspReady (r.input n) b = true) := by
  have hne : faultRoute b ≠ .idle := by cases b <;> simp [faultRoute]
  have hkeep : LeadsTo (fun n => (r.state n).route = faultRoute b ∧ X n ∧
      laneRspReady (r.input n) b = false) (fun n => (r.state n).route = faultRoute b ∧ X n ∧
      laneRspReady (r.input n) b = true) := by
    apply LeadsTo.of_keep
    · rintro n ⟨hr, hx, hready⟩
      have hnext := @fault_step cfg _ (r.input n) _ hr
      rw [← state_run hs.running, hready, if_neg Bool.false_ne_true] at hnext
      have hx' := hX n hx (by rw [hr]; exact hne)
      cases hready' : laneRspReady (r.input (n + 1)) b with
      | false => exact Or.inl ⟨hnext, hx', rfl⟩
      | true => exact Or.inr ⟨hnext, hx', rfl⟩
    · intro n hall
      obtain ⟨m, hm, htake⟩ := takes_response hs b n
      obtain ⟨hr, -, hready⟩ := hall m hm
      have hv := laneRspValid_of_fault (i := r.input m) (ctrl_run r m) (hs.running m) hr
      have hready' : laneRspReady (r.input m) b = true := htake hv
      rw [hready'] at hready
      cases hready
  rintro n ⟨hr, hx⟩
  cases hready : laneRspReady (r.input n) b with
  | true => exact ⟨n, le_rfl, hr, hx, hready⟩
  | false => exact hkeep n ⟨hr, hx, hready⟩

/-- **A lane being translated** goes to the physical port or delivers its fault, unless the
router stops. -/
theorem slow_leadsTo (b : Bool) (c : ℕ) :
    LeadsTo (fun n => InState r b .slow n ∧ c ≤ given r b n)
      (fun n => InState r b .offer n ∨ c < given r b n ∨ Stopped r n) := by
  apply LeadsTo.of_rank fun n => rank (r.state n)
  rintro n ⟨hslow, hle⟩
  have hc := ctrl_run r n
  obtain ⟨hr, hq⟩ := (laneState_slow hc).1 hslow
  have hle' := hle.trans (given_mono_step hs.running b n)
  by_cases hpos : 0 < rank (r.state n)
  · have hlt := rank_step (i := r.input n) hc (hs.running n) hpos
    have hnext := @slow_step cfg _ (r.input n) _ hslow
    rw [← state_run hs.running] at hlt hnext
    refine ⟨n + 1, Nat.le_succ n, ?_⟩
    rcases hnext with hx | hx | ⟨hx, hready⟩
    · exact Or.inr ⟨⟨hx, hle'⟩, hlt⟩
    · exact Or.inl (Or.inl hx)
    · exact Or.inl (Or.inr (Or.inl (hle.trans_lt (given_of_fault hs hx hready))))
  · have hfault : (r.state n).route = faultRoute b ∨ (r.state n).route = .ifetchFatal := by
      rcases of_rank_zero hc (Nat.eq_zero_of_not_pos hpos) with hx | hx | hx | hx
      · exact absurd hx hr
      · rw [← hq, hc.fault_d hx]
        exact Or.inl hx
      · rw [← hq, hc.fault_i (Or.inl hx)]
        exact Or.inl hx
      · exact Or.inr hx
    rcases hfault with hx | hx
    · obtain ⟨m, hm, hr', -, hready⟩ :=
        fault_leadsTo hs b (X := fun _ => True) (fun _ _ _ => trivial) n ⟨hx, trivial⟩
      have hgiven := given_of_fault hs hr' hready
      exact ⟨m + 1, by omega,
        Or.inl (Or.inr (Or.inl ((hle.trans (given_mono hs.running b hm)).trans_lt hgiven)))⟩
    · exact ⟨n, le_rfl, Or.inl (Or.inr (Or.inr ((stops_run r n).2 (Or.inl hx))))⟩

/-- A waiting lane waits, and keeps its turn, while the sequence is busy. -/
theorem wait_of_busy {b t : Bool} {n : ℕ}
    (hw : InState r b .wait n ∧ laneTurn (r.state n) b = t) (hr : (r.state n).route ≠ .idle) :
    InState r b .wait (n + 1) ∧ laneTurn (r.state (n + 1)) b = t := by
  have hch : chooseLane cfg (r.state n) (r.input n) b = false := by
    obtain ⟨hi, hd⟩ := @choose_of_route cfg (r.state n) (r.input n) hr
    cases b
    · exact hd
    · exact hi
  have hnext := @wait_step cfg _ (r.input n) _ hw.1
  rw [← state_run hs.running, hch, if_neg Bool.false_ne_true] at hnext
  refine ⟨hnext, ?_⟩
  rw [state_run hs.running, turn_of_busy hr, hw.2]

/-- A busy sequence comes to be free for a waiting lane. -/
theorem busy_leadsTo (b t : Bool) :
    LeadsTo (fun n => InState r b .wait n ∧ laneTurn (r.state n) b = t)
      (fun n => (InState r b .wait n ∧ laneTurn (r.state n) b = t ∧
        (r.state n).route = .idle) ∨ Stopped r n) := by
  have hfault : ∀ b', LeadsTo
      (fun n => (r.state n).route = faultRoute b' ∧ InState r b .wait n ∧
        laneTurn (r.state n) b = t)
      (fun n => InState r b .wait n ∧ laneTurn (r.state n) b = t ∧
        (r.state n).route = .idle) := by
    intro b' n hn
    obtain ⟨m, hm, hr, hw, hready⟩ := fault_leadsTo hs b'
      (X := fun n => InState r b .wait n ∧ laneTurn (r.state n) b = t)
      (fun n hw hr => wait_of_busy hs hw hr) n hn
    have hne : (r.state m).route ≠ .idle := by
      rw [hr]
      cases b' <;> simp [faultRoute]
    obtain ⟨hw', ht'⟩ := wait_of_busy hs hw hne
    have hnext := @fault_step cfg _ (r.input m) _ hr
    rw [← state_run hs.running, hready, if_pos rfl] at hnext
    exact ⟨m + 1, by omega, hw', ht', hnext⟩
  apply LeadsTo.of_rank fun n => rank (r.state n)
  rintro n ⟨hw, ht⟩
  have hc := ctrl_run r n
  by_cases hidle : (r.state n).route = .idle
  · exact ⟨n, le_rfl, Or.inl (Or.inl ⟨hw, ht, hidle⟩)⟩
  by_cases hpos : 0 < rank (r.state n)
  · have hlt := rank_step (i := r.input n) hc (hs.running n) hpos
    rw [← state_run hs.running] at hlt
    exact ⟨n + 1, Nat.le_succ n, Or.inr ⟨wait_of_busy hs ⟨hw, ht⟩ hidle, hlt⟩⟩
  · rcases of_rank_zero hc (Nat.eq_zero_of_not_pos hpos) with hx | hx | hx | hx
    · exact absurd hx hidle
    · obtain ⟨m, hm, hfree⟩ := hfault false n ⟨hx, hw, ht⟩
      exact ⟨m, hm, Or.inl (Or.inl hfree)⟩
    · obtain ⟨m, hm, hfree⟩ := hfault true n ⟨hx, hw, ht⟩
      exact ⟨m, hm, Or.inl (Or.inl hfree)⟩
    · exact ⟨n, le_rfl, Or.inl (Or.inr ((stops_run r n).2 (Or.inl hx)))⟩

/-- **A waiting lane** is translated, unless the router stops. -/
theorem wait_leadsTo (b : Bool) :
    LeadsTo (InState r b .wait) (fun n => InState r b .slow n ∨ Stopped r n) := by
  have hturn : LeadsTo (fun n => InState r b .wait n ∧ laneTurn (r.state n) b = true)
      (fun n => InState r b .slow n ∨ Stopped r n) := by
    intro n hn
    obtain ⟨m, hm, ⟨hw, ht, hidle⟩ | hstop⟩ := busy_leadsTo hs b true n hn
    · have hch := @choose_of_turn cfg _ _ _ (hs.running m) hw hidle ht
      have hnext := @wait_step cfg _ (r.input m) _ hw
      rw [← state_run hs.running, hch, if_pos rfl] at hnext
      exact ⟨m + 1, by omega, Or.inl hnext⟩
    · exact ⟨m, hm, Or.inr hstop⟩
  intro n hw
  cases ht : laneTurn (r.state n) b with
  | true => exact hturn n ⟨hw, ht⟩
  | false =>
    obtain ⟨m, hm, ⟨hw', -, hidle⟩ | hstop⟩ := busy_leadsTo hs b false n ⟨hw, ht⟩
    · have hnext := @wait_step cfg _ (r.input m) _ hw'
      rw [← state_run hs.running] at hnext
      cases hch : chooseLane cfg (r.state m) (r.input m) b with
      | true =>
        rw [hch, if_pos rfl] at hnext
        exact ⟨m + 1, by omega, Or.inl hnext⟩
      | false =>
        -- the other lane was chosen, so the next turn is this lane's
        rw [hch, if_neg Bool.false_ne_true] at hnext
        have ht' : laneTurn (r.state (m + 1)) b = true := by
          rw [state_run hs.running]
          rcases @turn_of_idle cfg _ _ _ (hs.running m) hw' hidle with hx | hx
          · rw [hch] at hx
            cases hx
          · exact hx
        obtain ⟨k, hk, hgoal⟩ := hturn (m + 1) ⟨hnext, ht'⟩
        exact ⟨k, by omega, hgoal⟩
    · exact ⟨m, hm, Or.inr hstop⟩

/-- **An offered access** is accepted; what the lane keeps with it is kept until then. -/
theorem offer_leadsTo (b : Bool) {X : ℕ → Prop}
    (hX : ∀ n, X n → InState r b .offer n → X (n + 1)) :
    LeadsTo (fun n => InState r b .offer n ∧ X n) (fun n => InState r b .response n ∧ X n) := by
  have hstep : ∀ n, InState r b .offer n →
      InState r b (if b then if (r.input n).pimemReqReady then .response else .offer
        else if (r.input n).pdmemReqReady then .response else .offer) (n + 1) := by
    intro n hn
    unfold InState
    rw [state_run hs.running]
    cases b <;> simp only [InState, laneState, Bool.false_eq_true, if_false, if_true] at hn ⊢ <;>
      simp [runState, nextIState, nextDState, hn]
  apply LeadsTo.of_keep
  · rintro n ⟨hn, hx⟩
    have hnext := hstep n hn
    have hx' := hX n hx hn
    cases b
    · cases hready : (r.input n).pdmemReqReady
      · exact Or.inl ⟨by simpa [hready] using hnext, hx'⟩
      · exact Or.inr ⟨by simpa [hready] using hnext, hx'⟩
    · cases hready : (r.input n).pimemReqReady
      · exact Or.inl ⟨by simpa [hready] using hnext, hx'⟩
      · exact Or.inr ⟨by simpa [hready] using hnext, hx'⟩
  · intro n hall
    cases b with
    | false =>
      obtain ⟨m, hm, htake⟩ := hs.dataPort n
      obtain ⟨hst, hx⟩ := hall m hm
      have hst' : (r.state m).dState = .offer := hst
      have hready : (r.input m).pdmemReqReady = true :=
        htake (by simp [pdmemReqValid, hs.running m, hst'])
      exact ⟨m + 1, by omega, by simpa [hready] using hstep m hst, hX m hx hst⟩
    | true =>
      obtain ⟨m, hm, htake⟩ := hs.fetchPort n
      obtain ⟨hst, hx⟩ := hall m hm
      have hst' : (r.state m).iState = .offer := hst
      have hready : (r.input m).pimemReqReady = true :=
        htake (by simp [pimemReqValid, hs.running m, hst'])
      exact ⟨m + 1, by omega, by simpa [hready] using hstep m hst, hX m hx hst⟩

/-- The data port owes the lane an answer. -/
theorem data_owed {n : ℕ} (hst : InState r false .response n) : ((log r n).data).Owed := by
  obtain ⟨qs, as, hp, ho⟩ := (pairs_run r (n := n) fun k _ => hs.projected k).data
  have hst' : (r.state n).dState = .response := hst
  have hlen : 0 < as.length := by
    simp only [DataOpen, hst'] at ho
    split_ifs at ho
    · obtain ⟨q, q', a, a', -, rfl, -⟩ := ho
      simp
    · obtain ⟨q, a, -, rfl, -⟩ := ho
      simp
  apply hp.owed _ hlen
  intro q as bs p h
  cases h <;> rfl

/-- A finished access is a response given. -/
theorem given_of_dFinish {n : ℕ} (hfin : dFinish (r.state n) (r.input n) = true) :
    given r false n < given r false (n + 1) := by
  have hlog : log r (n + 1) = (log r n).update cfg (r.state n) (r.input n) := rfl
  simp [given, hlog, Log.update, hs.running n, Traffic.add,
    dataGiven_eq (ctrl_run r n) (hs.running n), hfin]

/-- **A data access sent** is answered, and a response given. -/
theorem dResponse_leadsTo (c : ℕ) :
    LeadsTo (fun n => InState r false .response n ∧ c ≤ given r false n)
      (fun n => c < given r false n) := by
  have hstay : ∀ n, InState r false .response n → dFinish (r.state n) (r.input n) = false →
      InState r false .response (n + 1) := by
    intro n hst hfin
    have hst' : (r.state n).dState = .response := hst
    have hpipe : dPipeAccept cfg (r.state n) (r.input n) = false →
        dAccept cfg (r.state n) (r.input n) = false := by
      intro hp
      rw [← Bool.not_eq_true]
      intro ha
      rcases (of_dAccept ha).2.2 with hx | ⟨-, hx | ⟨hx, -⟩⟩
      · rw [hp] at hx
        cases hx
      · rw [hst'] at hx
        cases hx
      · rw [hfin] at hx
        cases hx
    show laneState (r.state (n + 1)) false = .response
    rw [state_run hs.running]
    cases hp : dPipeAccept cfg (r.state n) (r.input n) with
    | true => simp [laneState, runState, nextDState, hst', hp]
    | false => simp [laneState, runState, nextDState, hst', hp, hpipe hp, hfin]
  have hgive : ∀ n, c ≤ given r false n → dFinish (r.state n) (r.input n) = true →
      c < given r false (n + 1) :=
    fun n hle hfin => hle.trans_lt (given_of_dFinish hs hfin)
  apply LeadsTo.of_keep
  · rintro n ⟨hst, hle⟩
    cases hfin : dFinish (r.state n) (r.input n) with
    | false => exact Or.inl ⟨hstay n hst hfin, hle.trans (given_mono_step hs.running false n)⟩
    | true => exact Or.inr (hgive n hle hfin)
  · intro n hall
    by_contra hno
    have hnofin : ∀ m, n ≤ m → dFinish (r.state m) (r.input m) = false := by
      intro m hm
      rw [← Bool.not_eq_true]
      intro hfin
      exact hno ⟨m + 1, by omega, hgive m (hall m hm).2 hfin⟩
    have hst : ∀ m, n ≤ m → (r.state m).dState = .response := fun m hm => (hall m hm).1
    obtain ⟨k, hk, hv⟩ := hs.dataAnswers.stays (n := n)
      (fun m hm => data_owed hs (hall m hm).1) (by
        intro m hm hvalid
        have hf := hnofin m hm
        have hvalid' : (r.input m).pdmemRspValid = true := hvalid
        simpa [dFinish, pdmemRspReady, hst m hm, hvalid', hs.running m] using hf)
    obtain ⟨m, hm, htake⟩ := hs.dataTaker k
    have hvm : (r.input m).pdmemRspValid = true := hv m hm
    have hready : (r.input m).dmemRspReady = true :=
      htake (by simp [dmemRspValid, hs.running m, hst m (hk.trans hm), hvm])
    have hf := hnofin m (hk.trans hm)
    simp [dFinish, hst m (hk.trans hm), hvm, hready] at hf

/-- The fetch port owes the lane an answer. -/
theorem fetch_owed {n : ℕ} (hst : InState r true .response n) : ((log r n).fetch).Owed := by
  obtain ⟨qs, as, bs, hp, ho⟩ := (pairs_run r (n := n) fun k _ => hs.projected k).fetch
  have hst' : (r.state n).iState = .response := hst
  have hlen : bs.length < as.length := by
    simp only [FetchOpen, hst'] at ho
    obtain ⟨q, before, -, -, rfl, hb⟩ := ho
    unfold FetchBefore at hb
    split_ifs at hb
    · obtain ⟨rfl, b, rfl, -⟩ := hb
      simp
    · obtain ⟨rfl, rfl⟩ := hb
      simp
  apply hp.owed _ hlen
  intro q as bs p h
  cases h <;> rfl

/-- A finished fetch is a response given. -/
theorem given_of_iFinish {n : ℕ} (hfin : iFinish cfg (r.state n) (r.input n) = true) :
    given r true n < given r true (n + 1) := by
  have hlog : log r (n + 1) = (log r n).update cfg (r.state n) (r.input n) := rfl
  simp [given, hlog, Log.update, hs.running n, Traffic.add,
    fetchGiven_eq (ctrl_run r n) (hs.running n), hfin]

/-- A fetch sent is to be sent once more. -/
def Again (r : Run (machine cfg)) (n : ℕ) : Prop :=
  InState r true .offer n ∧ (r.state n).iRefetch = true

/-- **A fetch sent** is answered, and either a response given or the fetch made again, which
it is once. -/
theorem iResponse_leadsTo (again : Bool) (c : ℕ) :
    LeadsTo (fun n => InState r true .response n ∧ (r.state n).iRefetch = again ∧
        c ≤ given r true n)
      (fun n => c < given r true n ∨ Stopped r n ∨ (again = false ∧ Again r n)) := by
  -- what an edge makes of a fetch sent
  have hstep : ∀ n, InState r true .response n → (r.state n).iRefetch = again →
      c ≤ given r true n →
      (InState r true .response (n + 1) ∧ (r.state (n + 1)).iRefetch = again ∧
          c ≤ given r true (n + 1) ∧ iFinish cfg (r.state n) (r.input n) = false ∧
          iError cfg (r.state n) (r.input n) = false ∧
          iRefetchFire cfg (r.state n) (r.input n) = false) ∨
        c < given r true (n + 1) ∨ Stopped r (n + 1) ∨ (again = false ∧ Again r (n + 1)) := by
    intro n hst hre hle
    have hst' : (r.state n).iState = .response := hst
    by_cases hfin : iFinish cfg (r.state n) (r.input n) = true
    · exact Or.inr (Or.inl (hle.trans_lt (given_of_iFinish hs hfin)))
    rw [Bool.not_eq_true] at hfin
    by_cases herr : iError cfg (r.state n) (r.input n) = true
    · refine Or.inr (Or.inr (Or.inl ?_))
      unfold Stopped
      rw [state_run hs.running]
      simp [runState, herr]
    rw [Bool.not_eq_true] at herr
    by_cases href : iRefetchFire cfg (r.state n) (r.input n) = true
    · have hold : (r.state n).iRefetch = false := by
        simp only [iRefetchFire, Bool.and_eq_true, Bool.not_eq_true'] at href
        exact href.2
      refine Or.inr (Or.inr (Or.inr ⟨hre.symm.trans hold, ?_⟩))
      unfold Again InState
      rw [state_run hs.running]
      simp [laneState, runState, nextIState, hst', herr, href]
    rw [Bool.not_eq_true] at href
    have ha : iAccept cfg (r.state n) (r.input n) = false := by
      rw [← Bool.not_eq_true]
      intro ha
      rcases (of_iAccept ha).2.2 with hx | hx
      · rw [hst'] at hx
        cases hx
      · rw [hfin] at hx
        cases hx
    refine Or.inl ⟨?_, ?_, hle.trans (given_mono_step hs.running true n), hfin, herr, href⟩
    · unfold InState
      rw [state_run hs.running]
      simp [laneState, runState, nextIState, hst', herr, href, ha, hfin]
    · rw [state_run hs.running]
      simp [runState, href, hfin, hre]
  apply LeadsTo.of_keep
  · rintro n ⟨hst, hre, hle⟩
    exact (hstep n hst hre hle).imp_left fun hx => ⟨hx.1, hx.2.1, hx.2.2.1⟩
  · intro n hall
    by_contra hno
    have hquiet : ∀ m, n ≤ m → iFinish cfg (r.state m) (r.input m) = false ∧
        iError cfg (r.state m) (r.input m) = false ∧
        iRefetchFire cfg (r.state m) (r.input m) = false := by
      intro m hm
      obtain ⟨hst, hre, hle⟩ := hall m hm
      rcases hstep m hst hre hle with hx | hx
      · exact hx.2.2.2
      · exact absurd ⟨m + 1, by omega, hx⟩ hno
    have hst : ∀ m, n ≤ m → (r.state m).iState = .response := fun m hm => (hall m hm).1
    -- with an answer that is neither an error nor fetched again, only the taker is missing
    have hfinish : ∀ m, n ≤ m → (r.input m).pimemRspValid = true →
        (r.input m).imemRspReady = false := by
      intro m hm hvalid
      obtain ⟨hfin, herr, href⟩ := hquiet m hm
      have hok : (cfg.enableMachineCheck || !(r.input m).pimemRsp.error) = true := by
        by_contra hbad
        simp only [Bool.or_eq_true, Bool.not_eq_true', not_or, Bool.not_eq_true,
          Bool.not_eq_false] at hbad
        simp [iError, hst m hm, hvalid, hbad] at herr
      simpa [iFinish, hst m hm, hvalid, href, hok] using hfin
    obtain ⟨k, hk, hv⟩ := hs.fetchAnswers.stays (n := n)
      (fun m hm => fetch_owed hs (hall m hm).1) (by
        intro m hm hvalid
        obtain ⟨-, herr, href⟩ := hquiet m hm
        simp [pimemRspReady, herr, href, hfinish m hm hvalid])
    obtain ⟨m, hm, htake⟩ := hs.fetchTaker k
    have hvm : (r.input m).pimemRspValid = true := hv m hm
    obtain ⟨-, herr, href⟩ := hquiet m (hk.trans hm)
    have hready : (r.input m).imemRspReady = true :=
      htake (by simp [imemRspValid, hs.running m, hst m (hk.trans hm), hvm, herr, href])
    rw [hfinish m (hk.trans hm) hvm] at hready
    cases hready

/-! ## Every request -/

/-- A lane that is not idle gives a response, unless the router stops. -/
theorem busy_gives (b : Bool) (c : ℕ) :
    LeadsTo (fun n => ¬ InState r b .idle n ∧ c ≤ given r b n)
      (fun n => c < given r b n ∨ Stopped r n) := by
  have hresp : LeadsTo (fun n => InState r b .response n ∧ c ≤ given r b n)
      (fun n => c < given r b n ∨ Stopped r n) := by
    cases b with
    | false =>
      intro n hn
      obtain ⟨m, hm, hgive⟩ := dResponse_leadsTo hs c n hn
      exact ⟨m, hm, Or.inl hgive⟩
    | true =>
      have hlast : LeadsTo (fun n => InState r true .response n ∧
          (r.state n).iRefetch = true ∧ c ≤ given r true n)
          (fun n => c < given r true n ∨ Stopped r n) := by
        intro n hn
        obtain ⟨m, hm, hgive | hstop | ⟨hx, -⟩⟩ := iResponse_leadsTo hs true c n hn
        · exact ⟨m, hm, Or.inl hgive⟩
        · exact ⟨m, hm, Or.inr hstop⟩
        · cases hx
      rintro n ⟨hst, hle⟩
      cases hre : (r.state n).iRefetch with
      | true => exact hlast n ⟨hst, hre, hle⟩
      | false =>
        obtain ⟨m, hm, hgive | hstop | ⟨-, hoffer, hre'⟩⟩ :=
          iResponse_leadsTo hs false c n ⟨hst, hre, hle⟩
        · exact ⟨m, hm, Or.inl hgive⟩
        · exact ⟨m, hm, Or.inr hstop⟩
        · have hle' := hle.trans (given_mono hs.running true hm)
          obtain ⟨k, hk, hst', hre'', hle''⟩ := offer_leadsTo hs true
            (X := fun n => (r.state n).iRefetch = true ∧ c ≤ given r true n) (by
              rintro j ⟨hj, hj'⟩ hst
              have hst' : (r.state j).iState = .offer := hst
              refine ⟨?_, hj'.trans (given_mono_step hs.running true j)⟩
              rw [state_run hs.running]
              simp [runState, iFinish, hst', hj]) m ⟨hoffer, hre', hle'⟩
          obtain ⟨j, hj, hgoal⟩ := hlast k ⟨hst', hre'', hle''⟩
          exact ⟨j, by omega, hgoal⟩
  have hoffer : LeadsTo (fun n => InState r b .offer n ∧ c ≤ given r b n)
      (fun n => c < given r b n ∨ Stopped r n) :=
    (offer_leadsTo hs b fun n hx _ => hx.trans (given_mono_step hs.running b n)).trans hresp
  have hslow : LeadsTo (fun n => InState r b .slow n ∧ c ≤ given r b n)
      (fun n => c < given r b n ∨ Stopped r n) := by
    intro n hn
    obtain ⟨m, hm, hst | hgive | hstop⟩ := slow_leadsTo hs b c n hn
    · obtain ⟨k, hk, hgoal⟩ := hoffer m ⟨hst, hn.2.trans (given_mono hs.running b hm)⟩
      exact ⟨k, by omega, hgoal⟩
    · exact ⟨m, hm, Or.inl hgive⟩
    · exact ⟨m, hm, Or.inr hstop⟩
  rintro n ⟨hidle, hle⟩
  unfold InState at hidle
  cases hst : laneState (r.state n) b with
  | idle => exact absurd hst hidle
  | wait =>
    obtain ⟨m, hm, hst' | hstop⟩ := wait_leadsTo hs b n hst
    · obtain ⟨k, hk, hgoal⟩ := hslow m ⟨hst', hle.trans (given_mono hs.running b hm)⟩
      exact ⟨k, by omega, hgoal⟩
    · exact ⟨m, hm, Or.inr hstop⟩
  | slow => exact hslow n ⟨hst, hle⟩
  | offer => exact hoffer n ⟨hst, hle⟩
  | response => exact hresp n ⟨hst, hle⟩
  | fatal =>
    cases b with
    | false => exact absurd hst (ctrl_run r n).dState_fatal
    | true => exact ⟨n, le_rfl, Or.inr ((stops_run r n).2 (Or.inr hst))⟩

/-- The requests a lane has accepted. -/
def taken (r : Run (machine cfg)) (b : Bool) (n : ℕ) : ℕ :=
  if b then (log r n).fetch.requests.length else (log r n).data.requests.length

/-- An idle lane has no open request. -/
theorem taken_of_idle {b : Bool} {n : ℕ} (hst : InState r b .idle n) :
    taken r b n = given r b n := by
  have hpairs := pairs_run r (n := n) fun k _ => hs.projected k
  cases b with
  | false =>
    obtain ⟨qs, as, hp, ho⟩ := hpairs.data
    have hst' : (r.state n).dState = .idle := hst
    simp only [DataOpen, hst'] at ho
    have hlen := hp.length
    rw [ho.1] at hlen
    simpa [taken, given] using hlen
  | true =>
    obtain ⟨qs, as, bs, hp, ho⟩ := hpairs.fetch
    have hst' : (r.state n).iState = .idle := hst
    simp only [FetchOpen, hst'] at ho
    have hlen := hp.length
    rw [ho.1] at hlen
    simpa [taken, given] using hlen

theorem taken_mono_step (b : Bool) (n : ℕ) : taken r b n ≤ taken r b (n + 1) := by
  have hlog : log r (n + 1) = (log r n).update cfg (r.state n) (r.input n) := rfl
  cases b <;> simp [taken, hlog, Log.update, hs.running n, Traffic.add]

theorem taken_mono (b : Bool) {m n : ℕ} (h : m ≤ n) : taken r b m ≤ taken r b n := by
  induction n, h using Nat.le_induction with
  | base => exact le_rfl
  | succ n _ ih => exact ih.trans (taken_mono_step hs b n)

/-- **Every accepted request is responded to**, unless the router stops. -/
theorem every_request (b : Bool) (k : ℕ) :
    LeadsTo (fun n => k < taken r b n) (fun n => k < given r b n ∨ Stopped r n) := by
  apply LeadsTo.of_rank fun n => k + 1 - given r b n
  intro n hk
  by_cases hdone : k < given r b n
  · exact ⟨n, le_rfl, Or.inl (Or.inl hdone)⟩
  have hbusy : ¬ InState r b .idle n := by
    intro hidle
    rw [taken_of_idle hs hidle] at hk
    exact hdone hk
  obtain ⟨m, hm, hgive | hstop⟩ := busy_gives hs b (given r b n) n ⟨hbusy, le_rfl⟩
  · exact ⟨m, hm, Or.inr ⟨hk.trans_le (taken_mono hs b hm), by omega⟩⟩
  · exact ⟨m, hm, Or.inl (Or.inr hstop)⟩

end Run

end Router
end SloPPC603
