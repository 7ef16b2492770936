import Mathlib.Data.Finset.Prod
import SloPPC603.Clocked.LeadsTo
import SloPPC603.Dcache.FailedFill
import SloPPC603.Dcache.Snoop

/-!
# Every request is answered

Among surroundings that keep the bus moving, take answers and leave snoop-free cycles, an
accepted request is answered.

* `Serves` — such surroundings.
* `rank`, `rank_step` — an operation comes nearer its end each time it moves.
* `dirtyCount` — a lookup that waits can be held up by pushes only as long as there are
  modified lines.
* `not_stuck` — an operation in progress moves again.
* `answered_leadsTo` — what is owed is given.
-/

namespace SloPPC603
namespace Dcache

open Clocked

variable {cfg : Config} {s : State} {i : Input}

/-! ## Moving -/

/-- The state machine leaves its state, or takes one more of the cycles it spends there. -/
def moves (cfg : Config) (s : State) (i : Input) : Bool :=
  match s.state with
  | .lookup => lkGo cfg s i
  | .cobReq | .addrReq | .fillReq | .sreadReq | .swriteReq => busAccept s i
  | .addrWait | .syncWait => s.wqCount = 0
  | .fillWait | .sreadWait => i.busRdValid
  | .install => !s.snpValid
  | .idle | .readData | .cobRead | .zero | .storeWrite => true

/-- The operation in progress has not answered. -/
def Pending (s : State) : Prop := s.state ≠ .idle ∧ s.rspSent = false

/-- The steps left of a plan. -/
def stepsLeft (p : Plan) : ℕ :=
  p.cob.toNat + p.addr.toNat + p.fill.toNat + p.sread.toNat + p.zero.toNat + p.store.toNat +
    p.swrite.toNat + p.install.toNat

/-- The moves left in a step, at most. -/
def movesLeft (s : State) : ℕ :=
  match s.state with
  | .cobRead | .zero | .fillWait => 4 - s.stepIdx
  | .fillReq => 5
  | .addrReq | .sreadReq => 1
  | _ => 0

/-- How many moves the operation is from its end, at most. -/
def rank (s : State) : ℕ :=
  match s.state with
  | .idle => 0
  | .lookup => 100
  | .readData | .syncWait => 1
  | _ => 8 * stepsLeft s.plan + movesLeft s

theorem stepsLeft_le (p : Plan) : stepsLeft p ≤ 8 := by
  have hle : ∀ b : Bool, b.toNat ≤ 1 := Bool.toNat_le
  have h1 := hle p.cob
  have h2 := hle p.addr
  have h3 := hle p.fill
  have h4 := hle p.sread
  have h5 := hle p.zero
  have h6 := hle p.store
  have h7 := hle p.swrite
  have h8 := hle p.install
  unfold stepsLeft
  omega

/-- A plan loses its first step. -/
theorem stepsLeft_rest {p : Plan} (h : firstStep p ≠ .idle) :
    stepsLeft p.rest < stepsLeft p := by
  obtain ⟨cob, addr, fill, sread, zero, store, swrite, install⟩ := p
  revert h
  cases cob <;> cases addr <;> cases fill <;> cases sread <;> cases zero <;> cases store <;>
    cases swrite <;> cases install <;> decide

theorem movesLeft_le (s : State) : movesLeft s ≤ 5 := by
  unfold movesLeft
  cases s.state <;> simp only <;> omega

theorem rank_of_phase {p : DcState} (hp : phaseOf s.state = some p) :
    rank s = 8 * stepsLeft s.plan + movesLeft s := by
  cases hst : s.state <;> simp [hst, phaseOf] at hp <;> simp [rank, hst]

/-- Without a move the state machine stays as it is. -/
theorem stay_step (hno : moves cfg s i = false) (hp : Pending s) :
    nextState cfg s i = s.state ∧ nextRspSent cfg s i = false ∧ nextPlan cfg s i = s.plan ∧
      nextStepIdx cfg s i = s.stepIdx ∧ reqAccept cfg s i = false := by
  obtain ⟨hne, hsent⟩ := hp
  have hd : stepDone s i = false := by
    cases hst : s.state <;> simp [moves, hst] at hno <;>
      simp [stepDone, hst, hno, fillBeat, installGo]
  have hgo : lkGo cfg s i = false := by
    cases hst : s.state <;> simp [moves, hst] at hno <;> simp [lkGo, hst]
    simpa [lkGo, hst] using hno
  have hacc : reqAccept cfg s i = false := by
    apply not_reqAccept_of_not_ready
    by_contra h
    have hready : reqReady cfg s i = true := Bool.not_eq_false _ ▸ h
    obtain ⟨hf, hfs⟩ := lkFast_of_not_go hgo
    simp only [reqReady, lkFastDone, lkFastStNext, lkFastStDone, hf, hfs, Bool.and_eq_true] at hready
    simp [hne] at hready
  refine ⟨?_, ?_, ?_, ?_, hacc⟩
  · cases hst : s.state <;> simp [moves, hst] at hno hne <;> simp [nextState, hd, hst, hno]
  · cases hst : s.state <;> simp [moves, hst] at hno hne <;>
      simp [nextRspSent, hst, hno, hsent, fillBeat]
  · cases hst : s.state <;> simp [moves, hst] at hno hne <;> simp [nextPlan, hd, hst, hno, hgo]
  · cases hst : s.state <;> simp [moves, hst] at hno hne <;>
      simp [nextStepIdx, hd, hst, hno, fillBeat]

/-- A first step is a step. -/
theorem phase_of_firstStep {p : Plan} (h : firstStep p ≠ .idle) :
    ∃ q, phaseOf (firstStep p) = some q := by
  unfold firstStep at h ⊢
  split_ifs at h ⊢ <;> first | exact ⟨_, rfl⟩ | exact absurd rfl h

/-- A step that ends leaves an operation with fewer to take. -/
theorem rank_done (hc : ControlInv s) {p : DcState} (hp : phaseOf s.state = some p)
    (hd : stepDone s i = true) (hne : nextState cfg s i ≠ .idle) :
    rank (running cfg s i) < rank s := by
  obtain ⟨hn, hpl⟩ := @next_of_done cfg s i _ hc hp hd
  have hstate : (running cfg s i).state = firstStep s.plan.rest := hn
  have hplan : (running cfg s i).plan = s.plan.rest := hpl
  have hfirst : firstStep s.plan ≠ .idle := by
    rw [(hc p hp).2]
    rintro rfl
    cases hst : s.state <;> simp [hst, phaseOf] at hp
  obtain ⟨q, hq⟩ : ∃ q, phaseOf (running cfg s i).state = some q := by
    rw [hstate]
    exact phase_of_firstStep (hn ▸ hne)
  have hlt := stepsLeft_rest hfirst
  have hle := movesLeft_le (running cfg s i)
  rw [rank_of_phase hq, rank_of_phase hp, hplan]
  omega

/-- **A move brings the operation nearer its end**, unless it ends it. -/
theorem rank_step (hc : ControlInv s) (hr : ResponseInv s) (ho : OperationInv s)
    (hm : moves cfg s i = true) (hp : Pending s) (ht : rspTaken cfg s i = false)
    (hp' : Pending (running cfg s i)) : rank (running cfg s i) < rank s := by
  have hne : nextState cfg s i ≠ .idle := hp'.1
  have hidx := ho.index
  have hstate : (running cfg s i).state = nextState cfg s i := rfl
  have hstep : (running cfg s i).stepIdx = nextStepIdx cfg s i := rfl
  cases hph : phaseOf s.state with
  | some p =>
    cases hd : stepDone s i with
    | true => exact rank_done hc hph hd hne
    | false =>
      rcases @phase_step cfg s i _ hph with ⟨hd', -⟩ | ⟨-, hn, hpl⟩ | ⟨-, -, -, -, hn⟩
      · simp [hd] at hd'
      · have hplan : (running cfg s i).plan = s.plan := hpl
        rw [rank_of_phase (show phaseOf (running cfg s i).state = some p from hn),
          rank_of_phase hph, hplan]
        -- inside a step the count of its cycles goes up, or its request has gone
        have hless : movesLeft (running cfg s i) < movesLeft s := by
          unfold movesLeft
          rw [hstate, hstep]
          cases hst : s.state <;> simp only [hst, phaseOf, reduceCtorEq] at hph <;>
            simp only [moves, hst] at hm <;>
            simp only [stepDone, hst, hm, Bool.true_and, decide_eq_false_iff_not, not_not] at hd
          case cobRead =>
            by_cases h3 : s.stepIdx = 3
            · simp [nextState, stepDone, hst, h3]
            · simp only [nextState, nextStepIdx, stepDone, hst, h3, Bool.false_eq_true, if_false]
              omega
          case addrReq => simp [nextState, stepDone, hst, hm, hd]
          case fillReq => simp [nextState, nextStepIdx, stepDone, hst, hm]
          case fillWait =>
            have herr : i.busRdError = false := by
              by_contra herr
              exact hne (by simp [nextState, stepDone, fillBeat, hst, hm, Bool.not_eq_false _ ▸ herr])
            have hbeat : fillBeat s i = true := by simp [fillBeat, hst, hm, herr]
            have h3 : s.stepIdx ≠ 3 := by simpa [hbeat] using hd
            simp only [nextState, nextStepIdx, stepDone, hst, hbeat, h3, herr, Bool.and_false,
              decide_false, Bool.false_eq_true, if_false, if_true]
            omega
          case sreadReq => simp [nextState, stepDone, hst, hm]
          case zero =>
            have h3 : s.stepIdx ≠ 3 := by simpa using hd
            simp only [nextState, nextStepIdx, stepDone, hst, h3, decide_false, Bool.false_eq_true,
              if_false]
            omega
          all_goals simp_all [installGo]
        omega
      · exact absurd hn hne
  | none =>
    cases hst : s.state <;> simp [hst, phaseOf] at hph
    case idle => exact absurd hst hp.1
    case lookup =>
      have hfast : (lkFastDone cfg s i || lkFastStDone cfg s i) = false := by
        rw [← rspTaken_lookup hr hst, ht]
      have hgo : lkGo cfg s i = true := by simpa [moves, hst] using hm
      have hafter : nextState cfg s i = .readData ∨ nextState cfg s i = .syncWait ∨
          nextState cfg s i = firstStep (lk cfg s i).plan := by
        have hn : nextState cfg s i = afterLookup cfg s i := by
          simp [nextState, stepDone, hst, hgo]
        rw [hn] at hne ⊢
        unfold afterLookup at hne ⊢
        rw [hfast] at hne ⊢
        simp only [Bool.false_eq_true, if_false] at hne ⊢
        split_ifs at hne ⊢ <;> simp_all
      have hlt : rank (running cfg s i) ≤ 69 := by
        rcases hafter with h | h | h
        · simp [rank, hstate, h]
        · simp [rank, hstate, h]
        · obtain ⟨q, hq⟩ : ∃ q, phaseOf (running cfg s i).state = some q := by
            rw [hstate, h]
            exact phase_of_firstStep (h ▸ hne)
          have h1 := stepsLeft_le (running cfg s i).plan
          have h2 := movesLeft_le (running cfg s i)
          rw [rank_of_phase hq]
          omega
      simp only [rank, hst] at hlt ⊢
      omega
    case readData => exact absurd (by simp [nextState, stepDone, hst]) hne
    case syncWait =>
      have hz : s.wqCount = 0 := by simpa [moves, hst] using hm
      exact absurd (by simp [nextState, stepDone, hst, hz]) hne

/-! ## The castout buffer comes free -/

/-- The castout flag stands for a castout still to be accepted, or for one in the queue of
posted writes. -/
def CobHeld (s : State) : Prop := s.cobValid = true →
  phaseOf s.state = some .cobRead ∨ ∃ k < s.wqCount, s.wqCob k = true

theorem cobHeld_step (hk : CastoutInv s) (h : CobHeld s) :
    CobHeld (running cfg s i) := by
  intro hv
  have hle := hk.count_le
  have hflag : (running cfg s i).cobValid =
      if lkGo cfg s i && (lk cfg s i).cob then true
      else if wqPop s i && s.wqCob 0 then false else s.cobValid := rfl
  show phaseOf (nextState cfg s i) = some .cobRead ∨ ∃ k < wqCountNext s i, wqCobNext s i k = true
  rw [hflag] at hv
  split_ifs at hv with hlk hpop
  · rw [Bool.and_eq_true] at hlk
    exact Or.inl (by rw [nextState_of_cob hlk.1 hlk.2]; rfl)
  · have hcount := @wqCountNext_eq s i hle
    have hpopped := @wqCountPopped_eq s i hle
    rcases h hv with hp | ⟨k, hk', hcob⟩
    · rcases @phase_step cfg s i _ hp with ⟨hd, -⟩ | ⟨-, hn, -⟩ | ⟨-, hst, -⟩
      · -- the bus accepts the castout
        have hst : s.state = .cobReq := by
          cases hst : s.state <;> simp [hst, phaseOf] at hp <;> simp [stepDone, hst] at hd ⊢
        have hb : busAccept s i = true := by simpa [stepDone, hst] using hd
        have hpush : wqPush s i = true := by simp [wqPush, hb, hst]
        have hfull := (wqPush_spec hpush).1
        refine Or.inr ⟨s.wqCount - (wqPop s i).toNat, by rw [hcount, hpush]; simp, ?_⟩
        rw [wqCobNext, if_pos ⟨hpush, by rw [hpopped]; omega⟩]
        simp [wqPushCob, hst]
      · exact Or.inl hn
      · simp [hst, phaseOf] at hp
    · -- a castout in the queue moves up when a write completes
      have hne : ∀ j, j < s.wqCount - (wqPop s i).toNat →
          ¬ (wqPush s i = true ∧ j = wqCountPopped s i % 4) := by
        rintro j hj ⟨hpush, heq⟩
        have hfull := (wqPush_spec hpush).1
        rw [hpopped] at heq
        omega
      cases hp : wqPop s i with
      | true =>
        have hk0 : k ≠ 0 := by
          rintro rfl
          exact hpop (by rw [hp, hcob]; rfl)
        refine Or.inr ⟨k - 1, by rw [hcount, hp]; simp only [Bool.toNat_true]; omega, ?_⟩
        rw [wqCobNext, if_neg (hne _ (by rw [hp, Bool.toNat_true]; omega)), hp, if_pos rfl,
          if_pos (by omega), Nat.sub_add_cancel (by omega)]
        exact hcob
      | false =>
        refine Or.inr ⟨k, by rw [hcount, hp]; simp only [Bool.toNat_false]; omega, ?_⟩
        rw [wqCobNext, if_neg (hne _ (by rw [hp, Bool.toNat_false]; omega)), hp]
        exact hcob

/-! ## Pushes -/

/-- The modified ways of the cache. -/
def dirtyCount (cfg : Config) (s : State) : ℕ :=
  ((Finset.range cfg.setCount ×ˢ Finset.range cfg.wayCount).filter
    (fun p => dirtyAt s p.1 p.2 = true)).card

/-- While a lookup waits, a way is modified only if it was. -/
theorem dirtyAt_wait (ha : ArrayInv cfg s) (hst : s.state = .lookup) (hgo : lkGo cfg s i = false)
    {set w : ℕ} (h : dirtyAt (running cfg s i) set w = true) : dirtyAt s set w = true := by
  have hinst : installGo s = false := by simp [installGo, hst]
  have hflash : flash s i = false := by simp [flash, hst]
  rcases quiet_state ha.lookup ha.owner hgo hinst hflash set w with ⟨-, hd⟩ | ⟨-, -, hd⟩
  · rwa [hd] at h
  · exact hd h

theorem dirtyCount_wait (ha : ArrayInv cfg s) (hst : s.state = .lookup)
    (hgo : lkGo cfg s i = false) : dirtyCount cfg (running cfg s i) ≤ dirtyCount cfg s := by
  apply Finset.card_le_card
  intro p hp
  rw [Finset.mem_filter] at hp ⊢
  exact ⟨hp.1, dirtyAt_wait ha hst hgo hp.2⟩

/-- **A push leaves fewer modified ways.** -/
theorem dirtyCount_push (ha : ArrayInv cfg s) (hst : s.state = .lookup)
    (hgo : lkGo cfg s i = false) (hpush : sPush cfg s i = true) :
    dirtyCount cfg (running cfg s i) < dirtyCount cfg s := by
  obtain ⟨-, -, -, hhit, hdirty, hsnp, -⟩ := sPush_spec hpush
  obtain ⟨hlt, -, hdrt, -⟩ := hitWay_snoop ha.lookup ha.owner ha.lines.unique hsnp hhit
  have hown := ha.owner.snoop hsnp
  have hbefore : dirtyAt s (cfg.setOf (snpLine s)) (hway cfg s) = true := by
    rw [← hown.1, ← ha.lookup.drt, ← hdrt, hdirty]
  have hafter : dirtyAt (running cfg s i) (cfg.setOf (snpLine s)) (hway cfg s) = false := by
    have hwe : stWe cfg s i = true ∧ cfg.setOf (snpLine s) = stWaddr cfg s := by
      simp [stWe, hsnp, sStWe, hpush, stWaddr]
    have hd : (running cfg s i).stDirty (cfg.setOf (snpLine s)) (hway cfg s) = false := by
      rw [stDirty_running, if_pos hwe]
      simp [stWdirty, hsnp, sDirty, hpush]
    rw [dirtyAt, hd, Bool.and_false]
  apply Finset.card_lt_card
  refine Finset.ssubset_iff_of_subset ?_ |>.2 ⟨(cfg.setOf (snpLine s), hway cfg s), ?_, ?_⟩
  · intro p hp
    rw [Finset.mem_filter] at hp ⊢
    exact ⟨hp.1, dirtyAt_wait ha hst hgo hp.2⟩
  · rw [Finset.mem_filter, Finset.mem_product, Finset.mem_range, Finset.mem_range]
    exact ⟨⟨setOf_lt _, hlt⟩, hbefore⟩
  · rw [Finset.mem_filter]
    rintro ⟨-, h⟩
    rw [hafter] at h
    cases h

/-! ## The surroundings -/

section Run

variable (r : Run (machine cfg))

/-- Surroundings that take what is offered to them and complete what they have taken, and
leave cycles without a snoop. -/
structure Serves : Prop where
  outOfReset : ∀ n, (r.input n).rstN = true
  busPort : Recurs fun n => busReqValid (r.state n) = true → (r.input n).busReqReady = true
  reads : Recurs fun n => (r.state n).state = .fillWait ∨ (r.state n).state = .sreadWait →
    (r.input n).busRdValid = true
  writes : Recurs fun n => (r.state n).wqCount ≠ 0 → (r.input n).busWrDone = true
  pushPort : Recurs fun n => pushReqValid (r.state n) = true → (r.input n).pushReqReady = true
  pushes : Recurs fun n => (r.state n).pushSt = .wait → (r.input n).pushDone = true
  taker : Recurs fun n => rspValid cfg (r.state n) (r.input n) = true →
    (r.input n).rspReady = true
  snoops : Recurs fun n => (r.input n).snoopValid = false

variable {r}

theorem Serves.obeys (hs : Serves r) (n : ℕ) : r.Obeys OutOfReset n := fun k _ => hs.outOfReset k

theorem Serves.state_succ (hs : Serves r) (n : ℕ) :
    r.state (n + 1) = running cfg (r.state n) (r.input n) := step_running (hs.outOfReset n)

theorem cobHeld_run {n : ℕ} (h : r.Obeys OutOfReset n) : CobHeld (r.state n) := by
  induction n with
  | zero =>
    have hv : r.start.cobValid = false := by
      obtain ⟨s₀, i, hrst, heq⟩ := r.initial
      simp [heq, step, hrst, reset]
    intro hcob
    rw [Run.state_zero, hv] at hcob
    cases hcob
  | succ n ih =>
    have hrun := h.mono n.le_succ
    have hn : r.state (n + 1) = running cfg (r.state n) (r.input n) :=
      step_running (h n n.lt_succ_self)
    rw [hn]
    exact cobHeld_step (arrayInv_run hrun).castout (ih hrun)

/-- **The posted writes complete** once no more are posted. -/
theorem drains (hs : Serves r) {n : ℕ}
    (hno : ∀ m, n ≤ m → wqPush (r.state m) (r.input m) = false) :
    ∃ k, n ≤ k ∧ ∀ m, k ≤ m → (r.state m).wqCount = 0 := by
  have hcount : ∀ m, n ≤ m → (r.state (m + 1)).wqCount =
      (r.state m).wqCount - (wqPop (r.state m) (r.input m)).toNat := by
    intro m hm
    have hle := (arrayInv_run (hs.obeys m)).castout.count_le
    rw [hs.state_succ m]
    show wqCountNext (r.state m) (r.input m) = _
    rw [wqCountNext_eq hle, hno m hm]
    simp
  obtain ⟨k, hk, hsame⟩ := exists_settled (f := fun m => (r.state m).wqCount)
    (fun m hm => by have := hcount m hm; omega)
  refine ⟨k, hk, fun m hm => ?_⟩
  by_contra hne
  have hpos : ∀ j, k ≤ j → (r.state j).wqCount ≠ 0 := by
    intro j hj
    have h1 : (r.state j).wqCount = (r.state k).wqCount := hsame j hj
    have h2 : (r.state m).wqCount = (r.state k).wqCount := hsame m hm
    omega
  obtain ⟨j, hj, hdone⟩ := hs.writes k
  have hpop : wqPop (r.state j) (r.input j) = true := by simp [wqPop, hdone (hpos j hj), hpos j hj]
  have hlater : (r.state (j + 1)).wqCount = (r.state k).wqCount := hsame (j + 1) (by omega)
  have hnow : (r.state j).wqCount = (r.state k).wqCount := hsame j hj
  have hstep := hcount j (hk.trans hj)
  rw [hpop, Bool.toNat_true] at hstep
  have := hpos j hj
  omega

/-- A push that has been accepted completes. -/
theorem wait_leadsTo (hs : Serves r) {k : ℕ} :
    LeadsTo (fun m => k ≤ m ∧ (r.state m).pushSt = .wait)
      (fun m => k ≤ m ∧ (r.state m).pushSt = .idle) := by
  have hnext : ∀ m, (r.state m).pushSt = .wait → (r.state (m + 1)).pushSt =
      if (r.input m).pushDone then .idle else .wait := by
    intro m hst
    rw [hs.state_succ m]
    show nextPushSt cfg (r.state m) (r.input m) = _
    simp [nextPushSt, hst]
  apply LeadsTo.of_keep
  · rintro m ⟨hm, hst⟩
    have hn := hnext m hst
    cases hd : (r.input m).pushDone with
    | true => exact Or.inr ⟨by omega, by rw [hn, hd]; rfl⟩
    | false => exact Or.inl ⟨by omega, by rw [hn, hd]; rfl⟩
  · intro m hall
    obtain ⟨j, hj, hd⟩ := hs.pushes m
    obtain ⟨hkj, hst⟩ := hall j hj
    exact ⟨j + 1, by omega, by omega, by rw [hnext j hst, hd hst]; rfl⟩

/-- A push request is accepted. -/
theorem req_leadsTo (hs : Serves r) {k : ℕ} :
    LeadsTo (fun m => k ≤ m ∧ (r.state m).pushSt = .req)
      (fun m => k ≤ m ∧ (r.state m).pushSt = .wait) := by
  have hnext : ∀ m, (r.state m).pushSt = .req → (r.state (m + 1)).pushSt =
      (if pushAccept (r.state m) (r.input m) then .wait else .req) ∧
        (r.state (m + 1)).pushCap = false := by
    intro m hst
    rw [hs.state_succ m]
    refine ⟨?_, by simp [running, hst]⟩
    show nextPushSt cfg (r.state m) (r.input m) = _
    simp [nextPushSt, hst]
  apply LeadsTo.of_keep
  · rintro m ⟨hm, hst⟩
    have hn := (hnext m hst).1
    cases hd : pushAccept (r.state m) (r.input m) with
    | true => exact Or.inr ⟨by omega, by rw [hn, hd]; rfl⟩
    | false => exact Or.inl ⟨by omega, by rw [hn, hd]; rfl⟩
  · intro m hall
    obtain ⟨j, hj, hready⟩ := hs.pushPort (m + 1)
    obtain ⟨hkj, hst⟩ := hall j (by omega)
    obtain ⟨j, rfl⟩ : ∃ l, j = l + 1 := ⟨j - 1, by omega⟩
    have hcap := (hnext j (hall j (by omega)).2).2
    have hvalid : pushReqValid (r.state (j + 1)) = true := by simp [pushReqValid, hst, hcap]
    have hacc : pushAccept (r.state (j + 1)) (r.input (j + 1)) = true := by
      simp [pushAccept, hvalid, hready hvalid]
    exact ⟨j + 2, by omega, by omega, by rw [(hnext (j + 1) hst).1, hacc]; rfl⟩

/-- A push reads its line. -/
theorem read_leadsTo (hs : Serves r) {k : ℕ} :
    LeadsTo (fun m => k ≤ m ∧ (r.state m).pushSt = .read)
      (fun m => k ≤ m ∧ (r.state m).pushSt = .req) := by
  apply LeadsTo.of_rank (fun m => 4 - (r.state m).pushIdx)
  rintro m ⟨hm, hst⟩
  have hidx : (r.state m).pushIdx < 4 := by
    have hcoh := coherentInv_run (hs.obeys m)
    obtain ⟨c, hc⟩ := Option.ne_none_iff_exists'.1 (hcoh.traffic.pushing (by simp [hst]))
    exact (hcoh.capture.push c hc).idx_lt (by simp [hst])
  have hnext : (r.state (m + 1)).pushSt = (if (r.state m).pushIdx = 3 then .req else .read) ∧
      (r.state (m + 1)).pushIdx = ((r.state m).pushIdx + 1) % 4 := by
    rw [hs.state_succ m]
    refine ⟨?_, ?_⟩
    · show nextPushSt cfg (r.state m) (r.input m) = _
      simp [nextPushSt, hst]
    · show nextPushIdx cfg (r.state m) (r.input m) = _
      simp [nextPushIdx, hst]
  refine ⟨m + 1, by omega, ?_⟩
  by_cases h3 : (r.state m).pushIdx = 3
  · exact Or.inl ⟨by omega, by rw [hnext.1, if_pos h3]⟩
  · exact Or.inr ⟨⟨by omega, by rw [hnext.1, if_neg h3]⟩, by rw [hnext.2]; omega⟩

/-- **The push engine comes to rest** once no snoop pushes. -/
theorem pushes_end (hs : Serves r) {n : ℕ}
    (hno : ∀ m, n ≤ m → sPush cfg (r.state m) (r.input m) = false) :
    ∃ k, n ≤ k ∧ ∀ m, k ≤ m → (r.state m).pushSt = .idle := by
  have hwait := @wait_leadsTo cfg r hs n
  have hreq := (@req_leadsTo cfg r hs n).trans hwait
  have hread := (@read_leadsTo cfg r hs n).trans hreq
  obtain ⟨k, hk, -, hidle⟩ : ∃ k, n ≤ k ∧ n ≤ k ∧ (r.state k).pushSt = .idle := by
    cases hst : (r.state n).pushSt with
    | idle => exact ⟨n, le_rfl, le_rfl, hst⟩
    | read => exact hread n ⟨le_rfl, hst⟩
    | req => exact hreq n ⟨le_rfl, hst⟩
    | wait => exact hwait n ⟨le_rfl, hst⟩
  refine ⟨k, hk, fun m hm => ?_⟩
  induction m, hm using Nat.le_induction with
  | base => exact hidle
  | succ m hm ih =>
    rw [hs.state_succ m]
    show nextPushSt cfg (r.state m) (r.input m) = .idle
    simp [nextPushSt, ih, hno m (hk.trans hm)]

/-! ## An operation moves again -/

/-- A lookup goes in the end. -/
theorem lookup_moves (hs : Serves r) {n : ℕ} (hst : ∀ m, n ≤ m → (r.state m).state = .lookup)
    (hno : ∀ m, n ≤ m → lkGo cfg (r.state m) (r.input m) = false) : False := by
  have hnopush : ∀ m, n ≤ m → wqPush (r.state m) (r.input m) = false := by
    intro m hm
    simp [wqPush, hst m hm]
  obtain ⟨k₁, hk₁, hempty⟩ := drains hs hnopush
  -- pushes use up the modified ways
  obtain ⟨k₂, hk₂, hsettled⟩ := exists_settled (f := fun m => dirtyCount cfg (r.state m)) (n := n)
    (fun m hm => by
      rw [hs.state_succ m]
      exact dirtyCount_wait (arrayInv_run (hs.obeys m)) (hst m hm) (hno m hm))
  have hquiet : ∀ m, k₂ ≤ m → sPush cfg (r.state m) (r.input m) = false := by
    intro m hm
    by_contra hp
    have hlt := dirtyCount_push (arrayInv_run (hs.obeys m)) (hst m (hk₂.trans hm))
      (hno m (hk₂.trans hm)) (Bool.not_eq_false _ ▸ hp)
    have h1 : dirtyCount cfg (r.state m) = dirtyCount cfg (r.state k₂) := hsettled m hm
    have h2 : dirtyCount cfg (r.state (m + 1)) = dirtyCount cfg (r.state k₂) :=
      hsettled (m + 1) (by omega)
    rw [hs.state_succ m] at h2
    omega
  obtain ⟨k₃, hk₃, hidle⟩ := pushes_end hs hquiet
  -- then the first cycle after one without a snoop is free
  obtain ⟨m, hm, hfree⟩ := hs.snoops (max k₁ k₃)
  have hsnp : (r.state (m + 1)).snpValid = false := by
    rw [hs.state_succ m]
    exact hfree
  have hcob : (r.state (m + 1)).cobValid = false := by
    by_contra hc
    rcases cobHeld_run (hs.obeys (m + 1)) (Bool.not_eq_false _ ▸ hc) with hp | ⟨k, hk, -⟩
    · rw [hst (m + 1) (by omega)] at hp
      simp [phaseOf] at hp
    · rw [hempty (m + 1) (by omega)] at hk
      omega
  have hgo := hno (m + 1) (by omega)
  simp [lkGo, lkStall, hst (m + 1) (by omega), hsnp, hcob, pushBusy, hidle (m + 1) (by omega)] at hgo

/-- A bus request is accepted in the end. -/
theorem request_moves (hs : Serves r) {n : ℕ} {st : DcState}
    (hst : ∀ m, n ≤ m → (r.state m).state = st)
    (hreq : st = .cobReq ∨ st = .addrReq ∨ st = .fillReq ∨ st = .sreadReq ∨ st = .swriteReq)
    (hno : ∀ m, n ≤ m → busAccept (r.state m) (r.input m) = false) : False := by
  have hnopush : ∀ m, n ≤ m → wqPush (r.state m) (r.input m) = false := by
    intro m hm
    simp [wqPush, hno m hm]
  obtain ⟨k, hk, hempty⟩ := drains hs hnopush
  obtain ⟨m, hm, hready⟩ := hs.busPort (k + 1)
  obtain ⟨m, rfl⟩ : ∃ l, m = l + 1 := ⟨m - 1, by omega⟩
  have hcap : st = .cobReq → (r.state (m + 1)).cobCap = false := by
    rintro rfl
    rw [hs.state_succ m]
    simp [Dcache.running, hst m (by omega)]
  have hvalid : busReqValid (r.state (m + 1)) = true := by
    have hz := hempty (m + 1) (by omega)
    have hs' := hst (m + 1) (by omega)
    rcases hreq with h | h | h | h | h <;> subst h <;> simp [busReqValid, hs', wqFull, hz]
    exact hcap rfl
  have hacc := hno (m + 1) (by omega)
  simp [busAccept, hvalid, hready hvalid] at hacc

/-- **An operation in progress moves again.** -/
theorem not_stuck (hs : Serves r) {n : ℕ} {st : DcState}
    (hst : ∀ m, n ≤ m → (r.state m).state = st)
    (hno : ∀ m, n ≤ m → moves cfg (r.state m) (r.input m) = false) : False := by
  have hnow := hno n le_rfl
  cases st with
  | lookup =>
    refine lookup_moves hs hst fun m hm => ?_
    have := hno m hm
    simpa [moves, hst m hm] using this
  | cobReq | addrReq | fillReq | sreadReq | swriteReq =>
    refine request_moves hs hst (by simp) fun m hm => ?_
    have := hno m hm
    simpa [moves, hst m hm] using this
  | addrWait | syncWait =>
    have hnopush : ∀ m, n ≤ m → wqPush (r.state m) (r.input m) = false := by
      intro m hm
      simp [wqPush, hst m hm]
    obtain ⟨k, hk, hempty⟩ := drains hs hnopush
    have := hno k hk
    simp [moves, hst k hk, hempty k le_rfl] at this
  | fillWait | sreadWait =>
    obtain ⟨m, hm, hv⟩ := hs.reads n
    have := hno m hm
    simp only [moves, hst m hm] at this
    rw [hv (by simp [hst m hm])] at this
    cases this
  | install =>
    obtain ⟨m, hm, hfree⟩ := hs.snoops n
    have hsnp : (r.state (m + 1)).snpValid = false := by
      rw [hs.state_succ m]
      exact hfree
    have := hno (m + 1) (by omega)
    simp [moves, hst (m + 1) (by omega), hsnp] at this
  | idle | readData | cobRead | zero | storeWrite =>
    simp [moves, hst n le_rfl] at hnow

/-- An answer in the registers is taken. -/
theorem valid_leadsTo (hs : Serves r) :
    LeadsTo (fun n => (r.state n).rsp.valid = true)
      (fun n => rspTaken cfg (r.state n) (r.input n) = true) := by
  intro n hn
  by_contra hno
  have hnot : ∀ m, n ≤ m → rspTaken cfg (r.state m) (r.input m) = false :=
    fun m hm => Bool.not_eq_true _ ▸ fun h => hno ⟨m, hm, h⟩
  have hvalid : ∀ m, n ≤ m → (r.state m).rsp.valid = true := by
    intro m hm
    induction m, hm using Nat.le_induction with
    | base => exact hn
    | succ m hm ih =>
      rcases @answer_waits cfg _ (r.input m) (responseInv_run (hs.obeys m))
          (operationInv_run (hs.obeys m)) ih with ⟨ht, -⟩ | ⟨-, hrsp, -⟩
      · simp [hnot m hm] at ht
      · rw [hs.state_succ m, hrsp]
        exact ih
  obtain ⟨m, hm, hready⟩ := hs.taker n
  have hv : rspValid cfg (r.state m) (r.input m) = true := by simp [rspValid, hvalid m hm]
  have ht := hnot m hm
  simp [rspTaken, hv, hready hv] at ht

/-- **No operation is in progress for ever** without an answer. -/
theorem not_pending (hs : Serves r) {n : ℕ} (hpending : ∀ m, n ≤ m → Pending (r.state m))
    (hnot : ∀ m, n ≤ m → rspTaken cfg (r.state m) (r.input m) = false) : False := by
  have hstep : ∀ m, n ≤ m → (moves cfg (r.state m) (r.input m) = true ∧
      rank (r.state (m + 1)) < rank (r.state m)) ∨
      (moves cfg (r.state m) (r.input m) = false ∧ rank (r.state (m + 1)) = rank (r.state m) ∧
        (r.state (m + 1)).state = (r.state m).state) := by
    intro m hm
    have hnext := hpending (m + 1) (by omega)
    rw [hs.state_succ m] at hnext ⊢
    cases hmv : moves cfg (r.state m) (r.input m) with
    | true =>
      exact Or.inl ⟨rfl, rank_step (arrayInv_run (hs.obeys m)).control (responseInv_run (hs.obeys m))
        (operationInv_run (hs.obeys m)) hmv (hpending m hm) (hnot m hm) hnext⟩
    | false =>
      obtain ⟨hst, -, hpl, hidx, -⟩ := stay_step hmv (hpending m hm)
      have hsame : (running cfg (r.state m) (r.input m)).state = (r.state m).state := hst
      have hplan : (running cfg (r.state m) (r.input m)).plan = (r.state m).plan := hpl
      have hindex : (running cfg (r.state m) (r.input m)).stepIdx = (r.state m).stepIdx := hidx
      exact Or.inr ⟨rfl, by simp only [rank, movesLeft, hsame, hplan, hindex], hsame⟩
  obtain ⟨k, hk, hsettled⟩ := exists_settled (f := fun m => rank (r.state m)) (n := n)
    (fun m hm => by rcases hstep m hm with ⟨-, h⟩ | ⟨-, h, -⟩ <;> omega)
  -- once the rank has settled the operation no longer moves
  have hstill : ∀ m, k ≤ m → moves cfg (r.state m) (r.input m) = false ∧
      (r.state (m + 1)).state = (r.state m).state := by
    intro m hm
    have h1 : rank (r.state m) = rank (r.state k) := hsettled m hm
    have h2 : rank (r.state (m + 1)) = rank (r.state k) := hsettled (m + 1) (by omega)
    rcases hstep m (hk.trans hm) with ⟨-, h⟩ | ⟨hmv, -, hst⟩
    · omega
    · exact ⟨hmv, hst⟩
  have hsame : ∀ m, k ≤ m → (r.state m).state = (r.state k).state := by
    intro m hm
    induction m, hm using Nat.le_induction with
    | base => rfl
    | succ m hm ih => rw [(hstill m hm).2, ih]
  exact not_stuck hs hsame fun m hm => (hstill m hm).1

/-- **What is owed is given.** -/
theorem answered_leadsTo (hs : Serves r) :
    LeadsTo (fun n => owes (r.state n) = true)
      (fun n => rspTaken cfg (r.state n) (r.input n) = true) := by
  intro n hn
  by_contra hno
  have hnot : ∀ m, n ≤ m → rspTaken cfg (r.state m) (r.input m) = false :=
    fun m hm => Bool.not_eq_true _ ▸ fun h => hno ⟨m, hm, h⟩
  have howes : ∀ m, n ≤ m → owes (r.state m) = true := by
    intro m hm
    induction m, hm using Nat.le_induction with
    | base => exact hn
    | succ m hm ih =>
      obtain ⟨hacc, hkeep⟩ := @owes_cases cfg _ (r.input m) (responseInv_run (hs.obeys m))
        (operationInv_run (hs.obeys m))
      rw [hs.state_succ m]
      cases ha : reqAccept cfg (r.state m) (r.input m) with
      | true => exact (hacc ha).2
      | false =>
        rw [(hkeep ha).2, ih, hnot m hm]
        rfl
  -- no answer is ever in the registers, so the operation goes on
  refine not_pending hs (fun m hm => ?_) hnot
  have hv : (r.state m).rsp.valid = false := by
    by_contra hv
    obtain ⟨k, hk, ht⟩ := valid_leadsTo hs m (by simpa using hv)
    exact hno ⟨k, hm.trans hk, ht⟩
  have ho := howes m hm
  simpa [owes, hv, Pending] using ho

/-- **Every request has its answer**: the `k`th accepted has a `k`th taken. -/
theorem every_answer (hs : Serves r) {n k : ℕ} (hk : k < (log r n).accepted.length) :
    ∃ m, k < (log r m).answered.length := by
  have horder := (logInv_run (hs.obeys n)).order
  cases howes : owes (r.state n) with
  | false =>
    refine ⟨n, ?_⟩
    simpa [horder, unanswered, howes] using hk
  | true =>
    obtain ⟨m, hm, ht⟩ := answered_leadsTo hs n howes
    have hle := (answered_mono (r := r) hm).length_le
    refine ⟨m + 1, ?_⟩
    have hlog : (log r (m + 1)).answered.length = (log r m).answered.length + 1 := by
      simp [log_succ, Log.update, ht]
    have hlen : k < (log r n).answered.length + 1 := by
      simpa [horder, unanswered, howes] using hk
    omega

end Run

/-! ## One answer for each request -/

/-- What a run promises the processor, whatever the bus and the snoops do. -/
structure OneAnswer (r : Run (machine cfg)) : Prop where
  /-- The requests answered are those accepted, in order, but for the one in progress. -/
  order : ∀ n, (log r n).accepted = (log r n).answered.map Prod.fst ++ unanswered (r.state n)
  /-- Among surroundings that keep the bus moving, none is left without an answer. -/
  answered : Serves r → ∀ (n k : ℕ) (q : Request), (log r n).accepted[k]? = some q →
    ∃ m a, (log r m).answered[k]? = some (q, a)
  /-- A load whose read fails before its data is answered with the error. -/
  refused : ∀ n, ReadFails (r.state n) (r.input n) → Loads (r.state n) → (log r n).beats = 0 →
    ∀ (m : ℕ) (x : Request × Answer), (log r m).answered[number r n]? = some x →
      x.1 = current (r.state n) ∧ x.2.error = true
  /-- A load whose read fails after its data raises the machine check, and its one answer
  is the data. -/
  late : ∀ n, ReadFails (r.state n) (r.input n) → Loads (r.state n) → (log r n).beats ≠ 0 →
    (r.state (n + 1)).asyncError = true ∧
      ∀ (m : ℕ) (x : Request × Answer), (log r m).answered[number r n]? = some x →
        x.1 = current (r.state n) ∧ x.2.error = false
  /-- After a failed fill its line is in no way. -/
  nowhere : ∀ n, (r.state n).state = .fillWait → ReadFails (r.state n) (r.input n) →
    ∀ w < cfg.wayCount, ¬ holds cfg (r.state (n + 1)) w (reqLine (r.state n))
  /-- After a failed fill the other ways of its set are as its lookup left them, but for
  the state of a way a snoop has taken. -/
  spared : ∀ n, (r.state n).state = .fillWait → ReadFails (r.state n) (r.input n) →
    ∃ j, EvictedAt r j n ∧ ∀ w, w ≠ (r.state n).way →
      Spared (r.state (j + 1)) (r.state (n + 1)) (reqSet cfg (r.state n)) w
        (SnoopedSince r j (n + 1) (reqSet cfg (r.state n)) w)

/-- **One answer for each request, and a failed fill installs nothing**, in every run. -/
theorem one_answer_each (r : Run (machine cfg))
    (hrun : ∀ n, OutOfReset (r.state n) (r.input n)) : OneAnswer r := by
  have hobeys : ∀ n, r.Obeys OutOfReset n := fun n k _ => hrun k
  refine ⟨fun n => (logInv_run (hobeys n)).order, ?_, ?_, ?_, ?_, ?_⟩
  · intro hs n k q hq
    obtain ⟨m, hm⟩ := every_answer hs (List.getElem?_eq_some_iff.1 hq).1
    obtain ⟨⟨q', a⟩, hx⟩ : ∃ x, (log r m).answered[k]? = some x :=
      ⟨_, List.getElem?_eq_getElem hm⟩
    refine ⟨m, a, ?_⟩
    have hacc : (log r m).accepted[k]? = some q' := by
      rw [(logInv_run (hobeys m)).order, List.getElem?_append_left (by simpa using hm),
        List.getElem?_map, hx]
      rfl
    have hsame : q = q' := by
      rcases Nat.le_total n m with h | h
      · exact Option.some.inj ((getElem_mono (accepted_mono h) hq).symm.trans hacc)
      · exact Option.some.inj (hq.symm.trans (getElem_mono (accepted_mono h) hacc))
    rw [hsame, hx]
  · exact fun n hf hl hb m x hx => refused_answer hrun hf hl hb hx
  · intro n hf hl hb
    refine ⟨?_, fun m x hx => late_answer hrun hf hl hb hx⟩
    have hn : r.state (n + 1) = running cfg (r.state n) (r.input n) := step_running (hrun n)
    rw [hn]
    exact (load_late (operationInv_run (hobeys n)) (logInv_run (hobeys n))
      (arrayInv_run (hobeys n)).control hf hl hb).2.2
  · exact fun n hst _ => (failed_fill (hobeys (n + 1)) hst).1
  · exact fun n hst _ => (failed_fill (hobeys (n + 1)) hst).2

/-! ## A snoop during a fill -/

/-- `dcbz` brings line 0 in; a load of another line of the set is filled into the other
way, and while it waits a snoop of kill class takes line 0.  The fill fails. -/
def snoopedFillInputs : ℕ → Input
  | 0 => { hid0Dce := true, reqValid := true, reqOp := .dcbz }
  | 8 => { hid0Dce := true, reqValid := true, reqAddr := 2048 }
  | 10 => { hid0Dce := true, busReqReady := true, snoopValid := true, snoopTt := TT.kill }
  | 12 => { hid0Dce := true, busRdValid := true, busRdError := true }
  | _ => { hid0Dce := true, rspReady := true }

/-- The run of these inputs from reset. -/
def snoopedFillRun : Run (machine config602) where
  start := step config602 default { rstN := false }
  initial := initial_reset config602
  input := snoopedFillInputs

theorem snoopedFillRun_running (n : ℕ) : (snoopedFillRun.input n).rstN = true := by
  show (snoopedFillInputs n).rstN = true
  unfold snoopedFillInputs
  split <;> rfl

/-- From edge 14 on the cache is at rest. -/
theorem snoopedFillRun_rest (n : ℕ) (hn : 14 ≤ n) :
    (snoopedFillRun.input n = { hid0Dce := true, rspReady := true }) ∧
      (snoopedFillRun.state n).state = .idle ∧ (snoopedFillRun.state n).snpValid = false ∧
      (snoopedFillRun.state n).pushSt = .idle ∧ (snoopedFillRun.state n).wqCount = 0 := by
  have hinput : ∀ m, 14 ≤ m →
      snoopedFillRun.input m = { hid0Dce := true, rspReady := true } := by
    intro m hm
    show snoopedFillInputs m = _
    unfold snoopedFillInputs
    split <;> first | omega | rfl
  refine ⟨hinput n hn, ?_⟩
  induction n, hn using Nat.le_induction with
  | base => decide +kernel
  | succ n hn ih =>
    obtain ⟨hst, hsnp, hpush, hwq⟩ := ih
    have hi := hinput n hn
    have hstep : snoopedFillRun.state (n + 1) =
        running config602 (snoopedFillRun.state n) (snoopedFillRun.input n) :=
      step_running (snoopedFillRun_running n)
    rw [hstep, hi]
    refine ⟨?_, rfl, ?_, ?_⟩
    · show nextState _ _ _ = _
      simp [nextState, stepDone, hst, reqAccept]
    · show nextPushSt _ _ _ = _
      simp [nextPushSt, hpush, sPush, snpHits, snpActs, hsnp]
    · show wqCountNext _ _ = _
      simp [wqCountNext, wqCountPopped, wqPop, wqPush, busAccept, busReqValid, hst, hwq]

theorem snoopedFillRun_serves : Serves snoopedFillRun := by
  have hlater : ∀ n, n ≤ max n 14 := fun n => Nat.le_max_left n 14
  have hrest := fun n => snoopedFillRun_rest (max n 14) (Nat.le_max_right n 14)
  refine ⟨snoopedFillRun_running, ?_, ?_, ?_, ?_, ?_, ?_, ?_⟩ <;> intro n <;>
    refine ⟨max n 14, hlater n, ?_⟩ <;> obtain ⟨hi, hst, -, hpush, hwq⟩ := hrest n
  · simp [busReqValid, hst]
  · simp [hst]
  · simp [hwq]
  · simp [pushReqValid, hpush]
  · simp [hpush]
  · simp [hi]
  · simp [hi]

theorem one_answer_each_snoopedFillRun :
    OneAnswer snoopedFillRun ∧ Serves snoopedFillRun ∧
      ReadFails (snoopedFillRun.state 12) (snoopedFillRun.input 12) :=
  ⟨one_answer_each snoopedFillRun fun n => snoopedFillRun_running n, snoopedFillRun_serves,
    Or.inl (by decide +kernel), rfl, rfl⟩

/-- The fill of way 1 fails on edge 12, and way 0 is not as the eviction left it. -/
theorem snoop_takes_other_way : (∀ n, OutOfReset (snoopedFillRun.state n) (snoopedFillRun.input n)) ∧
    (snoopedFillRun.state 12).state = .fillWait ∧
    ReadFails (snoopedFillRun.state 12) (snoopedFillRun.input 12) ∧
    EvictedAt snoopedFillRun 9 12 ∧
    ¬ ∀ w < config602.wayCount, w ≠ (snoopedFillRun.state 12).way →
      validAt (snoopedFillRun.state 13) (reqSet config602 (snoopedFillRun.state 12)) w =
        validAt (snoopedFillRun.state 10) (reqSet config602 (snoopedFillRun.state 12)) w := by
  refine ⟨fun n => snoopedFillRun_running n, by decide +kernel,
    ⟨Or.inl (by decide +kernel), rfl, rfl⟩, ⟨by decide, by decide +kernel, by decide +kernel,
    by decide +kernel, by decide +kernel, ?_⟩, by decide +kernel⟩
  intro k hk hk'
  interval_cases k <;> decide +kernel

end Dcache
end SloPPC603
