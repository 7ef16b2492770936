import SloPPC603.Dcache.Response

/-!
# The operation in progress

What the control registers say of an operation past its lookup, whatever the bus and
the snoops do: its plan is one of a short list, and with it what the operation has
still to do, whether it has answered, and what its answer will say.  `Undisturbed`
and `AloneInv` are for the cache on its own: enabled, with no snoops, no flash
invalidate, no `dcbi` and no bus errors.

* `Undisturbed`, `AloneInv` — the inputs assumed of each cycle, and what they leave out.
* `leftPlans`, `left_rest` — the plans of an operation and what is left of them.
* `OperationInv`, `operationInv_run` — what the control registers say of the
  operation in progress.
-/

namespace SloPPC603
namespace Dcache

open Clocked

variable {cfg : Config} {s : State} {i : Input}

/-! ## The environment -/

/-- A cycle in which nothing but the processor's own operations reaches the cache,
and the bus reports no error. -/
structure Undisturbed (i : Input) : Prop where
  running : i.rstN = true
  noSnoop : i.snoopValid = false
  enabled : i.hid0Dce = true
  keep : i.hid0Dcfi = false
  noTea : i.teaPending = false
  known : i.reqValid = true → i.reqOp ≠ .dcbi ∧ i.reqOp ≠ .reserved
  noRdError : i.busRdValid = true → i.busRdError = false
  noWrError : i.busWrDone = true → i.busWrError = false
  noPushError : i.pushDone = true → i.pushError = false

/-- No snoop is registered or being pushed, no error is pending, and a lookup sees
the cache enabled. -/
structure AloneInv (s : State) : Prop where
  snoop : s.snpValid = false
  push : s.pushSt = .idle
  noError : s.asyncError = false
  enabled : s.state ≠ .idle → s.dce = true
  known : s.state ≠ .idle → s.reqOp ≠ .dcbi ∧ s.reqOp ≠ .reserved

theorem Undisturbed.flash (h : Undisturbed i) : flash s i = false := by
  simp [Dcache.flash, h.keep]

theorem AloneInv.tea (ha : AloneInv s) (h : Undisturbed i) : teaBlocksLoad s i = false := by
  simp [teaBlocksLoad, h.noTea, ha.noError]

theorem aloneInv_initial (h : (machine cfg).Initial s) : AloneInv s := by
  obtain ⟨hst, hsnp, -, hpush, -⟩ := state_initial h
  refine ⟨hsnp, hpush, ?_, fun hne => absurd hst hne, fun hne => absurd hst hne⟩
  obtain ⟨s₀, i, hrst, rfl⟩ := h
  simp [step, hrst, reset]

theorem aloneInv_step (hu : Undisturbed i) (ha : AloneInv s) : AloneInv (running cfg s i) where
  snoop := hu.noSnoop
  push := by
    have hno : sPush cfg s i = false := by simp [sPush, snpHits, snpActs, ha.snoop]
    show nextPushSt cfg s i = .idle
    simp [nextPushSt, ha.push, hno]
  noError := by
    have hw : (i.busWrDone && i.busWrError) = false := by
      rw [Bool.and_eq_false_imp]
      exact hu.noWrError
    have hp : (i.pushDone && i.pushError) = false := by
      rw [Bool.and_eq_false_imp]
      exact hu.noPushError
    have hf : fillAsyncError s i = false := by
      cases hv : i.busRdValid with
      | false => simp [fillAsyncError, hv]
      | true => simp [fillAsyncError, hu.noRdError hv]
    show ((i.busWrDone && i.busWrError) || (i.pushDone && i.pushError) || fillAsyncError s i) = false
    rw [hw, hp, hf]
    rfl
  enabled _ := hu.enabled
  known hne := by
    show (if reqAccept cfg s i then i.reqOp else s.reqOp) ≠ .dcbi ∧
      (if reqAccept cfg s i then i.reqOp else s.reqOp) ≠ .reserved
    cases hacc : reqAccept cfg s i with
    | true =>
      simp only [reqAccept, Bool.and_eq_true] at hacc
      exact hu.known hacc.1
    | false =>
      have hold : s.state ≠ .idle := by
        intro hst
        have hidle : nextState cfg s i = .idle := by simp [nextState, stepDone, hst, hacc]
        exact hne hidle
      exact ha.known hold

/-! ## What is left of a plan -/

/-- The plans a lookup writes for an operation, but for their castout. -/
def freshPlans : DcOp → List Plan
  | .load | .lwarx => [{ fill := true, install := true }, { sread := true }]
  | .store | .stwcx =>
    [{ store := true }, { fill := true, store := true, install := true }, { swrite := true },
      { store := true, swrite := true }]
  | .dcbz =>
    [{ zero := true }, { addr := true, zero := true, install := true },
      { zero := true, install := true }]
  | .dcbf | .dcbst | .dcbi => [{}, { addr := true }]
  | .dcbt | .dcbtst => [{ fill := true, install := true }]
  | .sync | .reserved => []

/-- A plan without its first step. -/
def Plan.rest (p : Plan) : Plan := p.clear (firstStep p)

/-- What may be left of an operation's plan. -/
def leftPlans (op : DcOp) : List Plan :=
  (freshPlans op).flatMap fun q => List.iterate Plan.rest { q with cob := true } 5

theorem left_rest : ∀ op, ∀ p ∈ leftPlans op, p.rest ∈ leftPlans op := by
  intro op
  cases op <;> decide

theorem left_fresh : ∀ op cob, ∀ q ∈ freshPlans op, { q with cob := cob } ∈ leftPlans op := by
  intro op cob
  cases op <;> cases cob <;> decide

/-- A lookup that enters its plan writes a fresh one. -/
theorem fresh_lookup (hans : lkAnswers cfg s i = false) (hread : (lk cfg s i).read = false)
    (hsync : (lk cfg s i).sync = false) :
    { (lk cfg s i).plan with cob := false } ∈ freshPlans s.reqOp := by
  have htea : teaBlocksLoad s i = false := by
    cases h : teaBlocksLoad s i with
    | false => rfl
    | true => simp [lkAnswers, lk_tea h] at hans
  have hop : (lkOp cfg s i).rsp = false → (lkOp cfg s i).read = false →
      (lkOp cfg s i).sync = false → { (lkOp cfg s i).plan with cob := false } ∈ freshPlans s.reqOp := by
    unfold lkOp
    cases hreq : s.reqOp <;>
      simp only [lkLoad, lkStore, lkDcbz, lkDcbf, lkDcbst, lkDcbi, lkTouch, lkInhibited, hreq] <;>
      (try split_ifs) <;> simp [lkDefault, lkModify, lkInvalidate, freshPlans] <;>
      cases i.hid0Abe <;> cases s.reqWimg.m <;> cases hit cfg s <;> cases hdirty cfg s <;> simp
  simp only [lkAnswers, Bool.or_eq_false_iff] at hans
  rw [lk_eq htea] at hans hread hsync ⊢
  simp only [lkPlanCob] at hans hread hsync ⊢
  have hsame : (lkAllocate cfg s (lkOp cfg s i)).rsp = (lkOp cfg s i).rsp ∧
      (lkAllocate cfg s (lkOp cfg s i)).read = (lkOp cfg s i).read ∧
      (lkAllocate cfg s (lkOp cfg s i)).sync = (lkOp cfg s i).sync := by
    unfold lkAllocate
    split_ifs <;> exact ⟨rfl, rfl, rfl⟩
  rw [hsame.1] at hans
  rw [hsame.2.1] at hread
  rw [hsame.2.2] at hsync
  rw [lkAllocate_plan]
  exact hop hans.1 hread hsync

/-! ## The operation in progress -/

/-- The operation changes memory. -/
def Writes (op : DcOp) : Prop := op = .store ∨ op = .stwcx ∨ op = .dcbz

instance (op : DcOp) : Decidable (Writes op) := inferInstanceAs (Decidable (_ ∨ _))

/-- What the control registers say of the operation in progress: what is left of
its plan, that a `stwcx.` under way succeeds, that the line of a write comes in
modified, and that an answer given early was given with the first beat. -/
structure OperationInv (s : State) : Prop where
  left : phaseOf s.state ≠ none → s.plan ∈ leftPlans s.reqOp
  success : phaseOf s.state ≠ none → s.reqOp = .stwcx → s.stwcxOk = true
  modified : phaseOf s.state ≠ none → s.plan.install = true → Writes s.reqOp →
    s.installDirty = true
  index : s.stepIdx < 4
  sent : s.state ≠ .idle → s.rspSent =
    (earlyRspOp s && ((s.state = .fillWait && s.stepIdx ≠ 0) || s.state = .install))
  reading : s.state = .readData → s.reqOp = .load ∨ s.reqOp = .lwarx
  syncing : s.state = .syncWait → s.reqOp = .sync

theorem operationInv_initial (h : (machine cfg).Initial s) : OperationInv s := by
  obtain ⟨hst, -⟩ := state_initial h
  have hidx : s.stepIdx = 0 := by
    obtain ⟨s₀, i, hrst, rfl⟩ := h
    simp [step, hrst, reset]
  refine ⟨?_, ?_, ?_, by omega, ?_, ?_, ?_⟩ <;> simp [hst, phaseOf]

/-- The lookup's promises to the steps of its plan. -/
theorem lk_promises :
    (s.reqOp = .stwcx → (lk cfg s i).rsp = false → (lk cfg s i).ok = true) ∧
      ((lk cfg s i).plan.install = true → Writes s.reqOp → (lk cfg s i).installDirty = true) ∧
      ((lk cfg s i).read = true → s.reqOp = .load ∨ s.reqOp = .lwarx) ∧
      ((lk cfg s i).sync = true → s.reqOp = .sync) := by
  have hop : (s.reqOp = .stwcx → (lkOp cfg s i).rsp = false → (lkOp cfg s i).ok = true) ∧
      ((lkOp cfg s i).plan.install = true → Writes s.reqOp → (lkOp cfg s i).installDirty = true) ∧
      ((lkOp cfg s i).read = true → s.reqOp = .load ∨ s.reqOp = .lwarx) ∧
      ((lkOp cfg s i).sync = true → s.reqOp = .sync) := by
    unfold lkOp
    cases hreq : s.reqOp <;>
      simp only [lkLoad, lkStore, lkDcbz, lkDcbf, lkDcbst, lkDcbi, lkTouch, lkInhibited, hreq] <;>
      (try split_ifs) <;> simp_all [lkDefault, lkModify, lkInvalidate, Writes, Plan.none]
  obtain ⟨hok, hdirty, hread, hsync⟩ := hop
  have hall : (lkAllocate cfg s (lkOp cfg s i)).rsp = (lkOp cfg s i).rsp ∧
      (lkAllocate cfg s (lkOp cfg s i)).ok = (lkOp cfg s i).ok ∧
      (lkAllocate cfg s (lkOp cfg s i)).installDirty = (lkOp cfg s i).installDirty ∧
      (lkAllocate cfg s (lkOp cfg s i)).read = (lkOp cfg s i).read ∧
      (lkAllocate cfg s (lkOp cfg s i)).sync = (lkOp cfg s i).sync := by
    unfold lkAllocate
    split_ifs <;> exact ⟨rfl, rfl, rfl, rfl, rfl⟩
  obtain ⟨hrsp', hok', hdirty', hread', hsync'⟩ := hall
  unfold lk lkTea
  split_ifs
  · -- a blocked load answers, and plans and reads nothing
    refine ⟨fun _ h => absurd h (by simp), fun h => absurd h (by simp [Plan.none]),
      fun h => absurd h (by simp), ?_⟩
    simpa only [lkPlanCob, hsync'] using hsync
  · simp only [lkPlanCob, lkAllocate_plan, hrsp', hok', hdirty', hread', hsync']
    exact ⟨hok, hdirty, hread, hsync⟩

theorem earlyRspOp_iff : earlyRspOp s = true ↔
    s.reqOp = .load ∨ s.reqOp = .lwarx ∨ s.reqOp = .dcbt ∨ s.reqOp = .dcbtst := by
  simp [earlyRspOp, or_assoc]

theorem earlyRspOp_of_writes (h : Writes s.reqOp) : earlyRspOp s = false := by
  rcases h with h | h | h <;> simp [earlyRspOp, h]

/-- The step that follows a step, as the lists of plans have it. -/
theorem left_next : ∀ op, ∀ p ∈ leftPlans op,
    (firstStep p = .sreadReq → (op = .load ∨ op = .lwarx) ∧ firstStep p.rest = .idle) ∧
    (firstStep p = .install → firstStep p.rest = .idle) ∧
    (firstStep p = .fillReq → firstStep p.rest = .install ∨
      (Writes op ∧ firstStep p.rest = .storeWrite)) ∧
    (firstStep p.rest = .install → firstStep p = .fillReq ∨ Writes op) := by
  intro op
  cases op <;> decide

theorem firstStep_ne_fillWait (p : Plan) : firstStep p ≠ .fillWait := by
  unfold firstStep
  split_ifs <;> simp

/-- An edge that ends the step in progress. -/
theorem next_of_done {p : DcState} (hc : ControlInv s) (hp : phaseOf s.state = some p)
    (hd : stepDone s i = true) :
    nextState cfg s i = firstStep s.plan.rest ∧ nextPlan cfg s i = s.plan.rest := by
  rcases @phase_step cfg s i _ hp with ⟨-, hn, hpl⟩ | ⟨hd', -⟩ | ⟨hd', -⟩
  · rw [Plan.rest, (hc p hp).2]
    exact ⟨hn, hpl⟩
  · simp [hd] at hd'
  · simp [hd] at hd'

/-- The plan an operation enters is a fresh one. -/
theorem enter_fresh (hp : phaseOf s.state = none)
    {q : DcState} (hq : phaseOf (nextState cfg s i) = some q) :
    { (lk cfg s i).plan with cob := false } ∈ freshPlans s.reqOp := by
  obtain ⟨-, -, hans, hread, -, hn, -⟩ := enter_phase hp hq
  apply fresh_lookup hans hread
  cases hs : (lk cfg s i).sync with
  | false => rfl
  | true =>
    have hop := lk_promises.2.2.2 hs
    have htea : teaBlocksLoad s i = false := by simp [teaBlocksLoad, hop]
    have hplan : (lk cfg s i).plan = .none := by
      simp [lk_eq htea, lkPlanCob, lkOp, hop, lkAllocate, lkDefault, Plan.none]
    rw [hn, hplan] at hq
    simp [firstStep, Plan.none, phaseOf] at hq

/-- A lookup enters its plan at its first step, which is no install. -/
theorem enter_ne_install (hp : phaseOf s.state = none) :
    nextState cfg s i ≠ .fillWait ∧ nextState cfg s i ≠ .install := by
  have hfirst : ∀ op, ∀ q ∈ freshPlans op, ∀ cob, firstStep { q with cob := cob } ≠ .install := by
    intro op
    cases op <;> decide
  have hkey : ∀ q, phaseOf (nextState cfg s i) = some q →
      nextState cfg s i ≠ .fillWait ∧ nextState cfg s i ≠ .install := by
    intro q hq
    obtain ⟨-, -, -, -, -, hn, -⟩ := enter_phase hp hq
    rw [hn]
    exact ⟨firstStep_ne_fillWait _, hfirst _ _ (enter_fresh hp hq) (lk cfg s i).plan.cob⟩
  constructor
  · intro h
    exact (hkey .fillReq (by rw [h]; rfl)).1 h
  · intro h
    exact (hkey .install (by rw [h]; rfl)).2 h

/-- An answer given early is remembered to the end of the operation. -/
theorem sent_step (hc : ControlInv s) (hr : ResponseInv s)
    (ho : OperationInv s) (hne : nextState cfg s i ≠ .idle) :
    nextRspSent cfg s i = (earlyRspOp (running cfg s i) &&
      ((nextState cfg s i = .fillWait && nextStepIdx cfg s i ≠ 0) ||
        nextState cfg s i = .install)) := by
  cases hp : phaseOf s.state with
  | none =>
    obtain ⟨hfill, hinst⟩ := @enter_ne_install cfg s i hp
    simp only [hfill, hinst, decide_false, Bool.false_and, Bool.or_false, Bool.and_false]
    cases hst : s.state <;> simp only [hst, phaseOf, reduceCtorEq] at hp
    · have hacc : reqAccept cfg s i = true := by
        by_contra hacc
        exact hne (by simp [nextState, stepDone, hst, hacc])
      simp [nextRspSent, hst, hacc]
    · simp [nextRspSent, hst, (hr.lookup hst).2]
    · exact absurd (by simp [nextState, stepDone, hst]) hne
    · have hsent := ho.sent (by simp [hst])
      simp [hst] at hsent
      simp [nextRspSent, hst, hsent]
  | some p =>
    have hacc := @reqAccept_of_phase cfg s i _ hp
    have hearly : earlyRspOp (running cfg s i) = earlyRspOp s := by
      simp [earlyRspOp, running, hacc]
    have hsent := ho.sent (by rintro hst; simp [hst, phaseOf] at hp)
    have hleft := left_next _ _ (ho.left (by simp [hp]))
    have hfirst := (hc p hp).2
    rw [hearly]
    -- only a fill, or a write, goes on to an install
    have hinst : nextState cfg s i = .install →
        s.state = .install ∨ s.state = .fillWait ∨ earlyRspOp s = false := by
      intro h
      rcases @phase_step cfg s i _ hp with ⟨hd, -⟩ | ⟨-, hn, -⟩ | ⟨-, -, -, -, hn⟩
      · rw [(next_of_done hc hp hd).1] at h
        rcases hleft.2.2.2 h with hf | hw
        · rw [hfirst] at hf
          subst hf
          cases hst : s.state <;> simp [hst, phaseOf] at hp <;> simp [stepDone, hst] at hd ⊢
        · exact Or.inr (Or.inr (earlyRspOp_of_writes hw))
      · rw [h] at hn
        obtain rfl := Option.some.inj hn
        cases hst : s.state <;> simp [hst, phaseOf] at hp ⊢
      · simp [hn] at h
    have hwait : nextState cfg s i = .fillWait → s.state = .fillWait ∨ nextStepIdx cfg s i = 0 := by
      intro h
      rcases @phase_step cfg s i _ hp with ⟨hd, -⟩ | ⟨hd, hn, -⟩ | ⟨-, -, -, -, hn⟩
      · exact absurd ((next_of_done hc hp hd).1 ▸ h) (firstStep_ne_fillWait _)
      · rw [h] at hn
        obtain rfl := Option.some.inj hn
        cases hst : s.state <;> simp [hst, phaseOf] at hp
        · right
          have hb : busAccept s i = true := by
            by_contra hb
            simp [nextState, hd, hst, hb] at h
          simp [nextStepIdx, hd, hst, hb]
        · exact Or.inl rfl
      · simp [hn] at h
    by_cases hfill : s.state = .fillWait
    · -- the beats of a fill, the first of which answers
      simp only [hfill, decide_true, Bool.true_and, reduceCtorEq, decide_false, Bool.or_false] at hsent
      have herr : (i.busRdValid && i.busRdError) = false := by
        by_contra herr
        have hd : stepDone s i = false := by
          simp only [Bool.not_eq_false, Bool.and_eq_true] at herr
          simp [stepDone, hfill, fillBeat, herr.2]
        exact hne (by simp [nextState, hd, hfill, herr])
      have hidx := ho.index
      cases hb : fillBeat s i with
      | false =>
        have hd : stepDone s i = false := by simp [stepDone, hfill, hb]
        have hn : nextState cfg s i = .fillWait := by simp [nextState, hd, hfill, herr]
        simp [nextRspSent, nextStepIdx, hfill, hb, hd, hn, herr, hsent]
      | true =>
        by_cases h3 : s.stepIdx = 3
        · have hd : stepDone s i = true := by simp [stepDone, hfill, hb, h3]
          have hp' : firstStep s.plan = .fillReq := by
            rw [hfirst]
            rw [hfill] at hp
            exact (Option.some.inj hp).symm
          have hnext := (@next_of_done cfg s i _ hc hp hd).1
          have hsame : nextRspSent cfg s i = s.rspSent := by
            simp [nextRspSent, hfill, herr, h3]
          rcases hleft.2.2.1 hp' with hn | ⟨hw, hn⟩
          · simp [hsame, hsent, h3, hnext, hn]
          · simp [hsame, hsent, earlyRspOp_of_writes hw]
        · have hd : stepDone s i = false := by simp [stepDone, hfill, h3]
          have hn : nextState cfg s i = .fillWait := by simp [nextState, hd, hfill, herr]
          have hidx' : nextStepIdx cfg s i ≠ 0 := by
            simp only [nextStepIdx, hd, hfill, hb]
            simp only [Bool.false_eq_true, if_false, if_true]
            omega
          by_cases h0 : s.stepIdx = 0
          · cases he : earlyRspOp s <;> simp [nextRspSent, hfill, herr, hb, h0, he, hn, hidx', hsent]
          · cases he : earlyRspOp s <;> simp [nextRspSent, hfill, herr, h0, he, hn, hidx', hsent]
    · have hsame : nextRspSent cfg s i = s.rspSent := by
        have hread : ¬ (s.state = .sreadWait ∧ i.busRdValid = true) := by
          rintro ⟨hst, hv⟩
          have hd : stepDone s i = true := by simp [stepDone, hst, hv]
          have hp' : firstStep s.plan = .sreadReq := by
            rw [hfirst]
            rw [hst] at hp
            exact (Option.some.inj hp).symm
          exact hne ((next_of_done hc hp hd).1.trans (hleft.1 hp').2)
        cases hst : s.state <;> simp [hst, phaseOf] at hp hfill hread <;> simp [nextRspSent, hst]
        simp [hread]
      rw [hsame]
      by_cases hin : s.state = .install
      · have hn : nextState cfg s i = .install := by
          rcases @phase_step cfg s i _ hp with ⟨hd, -⟩ | ⟨-, hn, -⟩ | ⟨-, hst, -⟩
          · rw [hin] at hp
            have hfin := hleft.2.1 (hfirst.trans (Option.some.inj hp).symm)
            exact absurd ((next_of_done hc (by rw [hin]; exact hp) hd).1.trans hfin) hne
          · rw [hin] at hp
            obtain rfl := Option.some.inj hp
            cases hn' : nextState cfg s i <;> simp [hn', phaseOf] at hn ⊢
          · exact absurd hst hfill
        simp [hsent, hin, hn]
      · have hfalse : s.rspSent = false := by simp [hsent, hfill, hin]
        rw [hfalse]
        by_cases hni : nextState cfg s i = .install
        · rcases hinst hni with h | h | h
          · exact absurd h hin
          · exact absurd h hfill
          · simp [h]
        · by_cases hnf : nextState cfg s i = .fillWait
          · rcases hwait hnf with h | h
            · exact absurd h hfill
            · simp [hni, h]
          · simp [hni, hnf]

/-- The states outside every plan are entered from a lookup. -/
theorem from_lookup {q : DcState} (hq : phaseOf q = none) (hne : q ≠ .idle) (hlk : q ≠ .lookup)
    (h : nextState cfg s i = q) :
    (s.state = .syncWait ∧ q = .syncWait) ∨
      (s.state = .lookup ∧ lkGo cfg s i = true ∧ afterLookup cfg s i = q) := by
  cases hp : phaseOf s.state with
  | some p =>
    rcases @phase_step cfg s i _ hp with ⟨-, hn, -⟩ | ⟨-, hn, -⟩ | ⟨-, -, -, -, hn⟩
    · rw [hn] at h
      unfold firstStep at h
      split_ifs at h <;> subst h <;> simp [phaseOf] at hq hne
    · rw [h, hq] at hn
      simp at hn
    · exact absurd (hn.symm.trans h).symm hne
  | none =>
    cases hst : s.state <;> simp [hst, phaseOf] at hp <;>
      simp only [nextState, stepDone, hst, Bool.false_eq_true, if_false] at h
    · split_ifs at h
      · exact absurd h.symm hlk
      · exact absurd h.symm hne
    · split_ifs at h with hgo
      · exact Or.inr ⟨rfl, hgo, h⟩
      · exact absurd h.symm hlk
    · exact absurd h.symm hne
    · split_ifs at h
      · exact absurd h.symm hne
      · exact Or.inl ⟨rfl, h.symm⟩

theorem enter_readData (h : nextState cfg s i = .readData) :
    s.state = .lookup ∧ lkGo cfg s i = true ∧ (lk cfg s i).read = true ∧ s.earlyData = false ∧
      reqAccept cfg s i = false := by
  rcases @from_lookup cfg s i _ rfl (by simp) (by simp) h with ⟨-, h'⟩ | ⟨hst, hgo, hafter⟩
  · simp at h'
  · unfold afterLookup at hafter
    split_ifs at hafter with hans hfast hacc hearly hread hsync
    · refine ⟨hst, hgo, hread, by simpa [hread] using hearly, ?_⟩
      simp only [Bool.or_eq_true, not_or, Bool.not_eq_true] at hfast
      simp [reqAccept, reqReady, hst, hfast, lkFastStNext]
    · exact absurd hafter (by unfold firstStep; split_ifs <;> simp)

theorem enter_syncWait (h : nextState cfg s i = .syncWait) :
    (s.state = .syncWait ∧ reqAccept cfg s i = false) ∨
      (s.state = .lookup ∧ lkGo cfg s i = true ∧ (lk cfg s i).sync = true ∧
        reqAccept cfg s i = false) := by
  rcases @from_lookup cfg s i _ rfl (by simp) (by simp) h with ⟨hst, -⟩ | ⟨hst, hgo, hafter⟩
  · left
    refine ⟨hst, ?_⟩
    simp [reqAccept, reqReady, hst, lkFastDone, lkFast, lkFastStNext, lkFastStDone, lkFastSt]
  · right
    unfold afterLookup at hafter
    split_ifs at hafter with hans hfast hacc hearly hread hsync
    · refine ⟨hst, hgo, hsync, ?_⟩
      simp only [Bool.or_eq_true, not_or, Bool.not_eq_true] at hfast
      simp [reqAccept, reqReady, hst, hfast, lkFastStNext]
    · exact absurd hafter (by unfold firstStep; split_ifs <;> simp)

theorem index_step (h : s.stepIdx < 4) : nextStepIdx cfg s i < 4 := by
  unfold nextStepIdx
  cases s.state <;> simp only <;> split_ifs <;> omega

/-- **The operation in progress over an edge.** -/
theorem operationInv_step (hc : ControlInv s)
    (hr : ResponseInv s) (ho : OperationInv s) : OperationInv (running cfg s i) := by
  have hops : ∀ p, phaseOf s.state = some p → (running cfg s i).reqOp = s.reqOp ∧
      (running cfg s i).stwcxOk = s.stwcxOk ∧ (running cfg s i).installDirty = s.installDirty := by
    intro p hp
    have hacc := @reqAccept_of_phase cfg s i _ hp
    have hgo := @lkGo_of_phase cfg s i _ hp
    simp [running, hacc, hgo]
  have hkept : ∀ p, phaseOf s.state = some p → phaseOf (nextState cfg s i) ≠ none →
      nextPlan cfg s i = s.plan.rest ∨ nextPlan cfg s i = s.plan := by
    intro p hp hne
    rcases @phase_step cfg s i _ hp with ⟨hd, -⟩ | ⟨-, -, hn⟩ | ⟨-, -, -, -, hn⟩
    · exact Or.inl (next_of_done hc hp hd).2
    · exact Or.inr hn
    · simp [hn, phaseOf] at hne
  refine ⟨?_, ?_, ?_, index_step ho.index, ?_, ?_, ?_⟩
  · intro hne
    show nextPlan cfg s i ∈ leftPlans (running cfg s i).reqOp
    cases hp : phaseOf s.state with
    | none =>
      obtain ⟨q, hq⟩ := Option.ne_none_iff_exists'.1 hne
      obtain ⟨-, -, -, -, hacc, -, hn⟩ := enter_phase hp hq
      have hop : (running cfg s i).reqOp = s.reqOp := by simp [running, hacc]
      rw [hn, hop]
      exact left_fresh _ (lk cfg s i).plan.cob { (lk cfg s i).plan with cob := false }
        (enter_fresh hp hq)
    | some p =>
      have hold := ho.left (by simp [hp])
      rw [(hops p hp).1]
      rcases hkept p hp hne with hn | hn
      · rw [hn]
        exact left_rest _ _ hold
      · rw [hn]
        exact hold
  · intro hne hop
    cases hp : phaseOf s.state with
    | none =>
      obtain ⟨q, hq⟩ := Option.ne_none_iff_exists'.1 hne
      obtain ⟨-, hgo, hans, -, hacc, -, -⟩ := enter_phase hp hq
      simp only [lkAnswers, Bool.or_eq_false_iff] at hans
      have hop' : s.reqOp = .stwcx := by simpa [running, hacc] using hop
      simpa [running, hgo] using lk_promises.1 hop' hans.1
    | some p =>
      rw [(hops p hp).2.1]
      rw [(hops p hp).1] at hop
      exact ho.success (by simp [hp]) hop
  · intro hne hinst hop
    have hinst' : (nextPlan cfg s i).install = true := hinst
    cases hp : phaseOf s.state with
    | none =>
      obtain ⟨q, hq⟩ := Option.ne_none_iff_exists'.1 hne
      obtain ⟨-, hgo, -, -, hacc, -, hn⟩ := enter_phase hp hq
      rw [hn] at hinst'
      have hop' : Writes s.reqOp := by simpa [running, hacc] using hop
      simpa [running, hgo] using lk_promises.2.1 hinst' hop'
    | some p =>
      rw [(hops p hp).2.2]
      rw [(hops p hp).1] at hop
      refine ho.modified (by simp [hp]) ?_ hop
      rcases hkept p hp hne with hn | hn
      · rw [hn] at hinst'
        exact install_of_clear hinst'
      · rwa [hn] at hinst'
  · intro hne
    exact sent_step hc hr ho hne
  · intro hst
    obtain ⟨-, hgo, hread, -, hacc⟩ := @enter_readData cfg s i hst
    have hop : (running cfg s i).reqOp = s.reqOp := by simp [running, hacc]
    rw [hop]
    exact lk_promises.2.2.1 hread
  · intro hst
    rcases @enter_syncWait cfg s i hst with ⟨hst', hacc⟩ | ⟨-, hgo, hsync, hacc⟩
    · have hop : (running cfg s i).reqOp = s.reqOp := by simp [running, hacc]
      rw [hop]
      exact ho.syncing hst'
    · have hop : (running cfg s i).reqOp = s.reqOp := by simp [running, hacc]
      rw [hop]
      exact lk_promises.2.2.2 hsync

theorem operationInv_run {r : Run (machine cfg)} {n : ℕ} (h : r.Obeys OutOfReset n) :
    OperationInv (r.state n) := by
  induction n with
  | zero => exact operationInv_initial r.initial
  | succ n ih =>
    have hrun := h.mono n.le_succ
    have hn : r.state (n + 1) = running cfg (r.state n) (r.input n) :=
      step_running (h n n.lt_succ_self)
    rw [hn]
    exact operationInv_step (arrayInv_run hrun).control (responseInv_run hrun) (ih hrun)

/-- A run that nothing disturbs. -/
theorem undisturbed_run {r : Run (machine cfg)} {n : ℕ}
    (h : r.Obeys (fun _ i => Undisturbed i) n) : AloneInv (r.state n) ∧ OperationInv (r.state n) := by
  refine ⟨?_, operationInv_run (h.imp (fun _ _ hi => hi.running))⟩
  refine Clocked.Run.invariant (fun _ hs => aloneInv_initial hs) (fun s i hs hi => ?_) h
  show AloneInv (step cfg s i)
  rw [step_running hi.running]
  exact aloneInv_step hi hs

end Dcache
end SloPPC603
