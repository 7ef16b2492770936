import SloPPC603.Dcache.Lookup

/-!
# The plan of an operation

A lookup writes a plan, and the state machine takes its steps in order.
`plansOf` lists, for each operation, the plans it can have left at any moment,
castout apart; `ControlInv` says the machine is always at the first step of such
a plan.

* `plan_lookup` — a lookup writes one of the listed plans.
* `phase_step` — what an edge does to an operation inside its plan: it stays in
  its step, finishes it, or a fill in error ends the operation.
* `controlInv_step` — the invariant.
-/

namespace SloPPC603
namespace Dcache

variable {cfg : Config} {s : State} {i : Input}

/-! ## Plans -/

/-- The plans an operation can have left, its castout apart. -/
def plansOf : DcOp → List Plan
  | .load | .lwarx =>
    [{}, { fill := true, install := true }, { install := true }, { sread := true }]
  | .store | .stwcx =>
    [{}, { store := true }, { fill := true, store := true, install := true },
      { store := true, install := true }, { install := true }, { swrite := true },
      { store := true, swrite := true }]
  | .dcbz =>
    [{}, { zero := true }, { addr := true, zero := true, install := true },
      { zero := true, install := true }, { install := true }]
  | .dcbf | .dcbst | .dcbi => [{}, { addr := true }]
  | .dcbt | .dcbtst => [{}, { fill := true, install := true }, { install := true }]
  | .sync | .reserved => [{}]

/-- The plan is one the operation can have left. -/
def Planned (op : DcOp) (p : Plan) : Prop := { p with cob := false } ∈ plansOf op

instance (op : DcOp) (p : Plan) : Decidable (Planned op p) :=
  inferInstanceAs (Decidable (_ ∈ plansOf op))

/-- The step a state of the machine carries out, under the name of the step's
first state. -/
def phaseOf : DcState → Option DcState
  | .cobRead | .cobReq => some .cobRead
  | .addrReq | .addrWait => some .addrReq
  | .fillReq | .fillWait => some .fillReq
  | .sreadReq | .sreadWait => some .sreadReq
  | .zero => some .zero
  | .storeWrite => some .storeWrite
  | .swriteReq => some .swriteReq
  | .install => some .install
  | _ => none

/-- A plan with one step done. -/
def Plan.clear (p : Plan) : DcState → Plan
  | .cobRead => { p with cob := false }
  | .addrReq => { p with addr := false }
  | .fillReq => { p with fill := false }
  | .sreadReq => { p with sread := false }
  | .zero => { p with zero := false }
  | .storeWrite => { p with store := false }
  | .swriteReq => { p with swrite := false }
  | .install => { p with install := false }
  | _ => p

/-- A plan with its castout bit is one of the listed ones with that bit. -/
theorem planned_iff {op : DcOp} {p : Plan} :
    Planned op p ↔ ∃ q ∈ plansOf op, p = { q with cob := p.cob } := by
  constructor
  · intro h
    exact ⟨_, h, rfl⟩
  · rintro ⟨q, hq, hp⟩
    have hcob : q.cob = false := by
      cases op <;> simp only [plansOf, List.mem_cons, List.not_mem_nil, or_false] at hq <;>
        rcases hq with rfl | rfl | rfl | rfl | rfl | rfl | rfl <;> rfl
    have heq : { p with cob := false } = q := by
      rw [hp, ← hcob]
    rw [Planned, heq]
    exact hq

/-- The plans an operation can have left lose their first step and stay listed. -/
theorem planned_clear {op : DcOp} {p : Plan} (h : Planned op p) :
    Planned op (p.clear (firstStep p)) := by
  obtain ⟨q, hq, hp⟩ := planned_iff.1 h
  rw [hp]
  cases p.cob <;> cases op <;> simp only [plansOf, List.mem_cons, List.not_mem_nil, or_false] at hq <;>
    rcases hq with rfl | rfl | rfl | rfl | rfl | rfl | rfl <;> decide

/-- A write in place, once past its castout, is the next step. -/
theorem planned_inPlace {op : DcOp} {p : Plan} (h : Planned op p)
    (hw : p.store = true ∨ p.zero = true) (hi : p.install = false) (hc : p.cob = false) :
    firstStep p = .zero ∨ firstStep p = .storeWrite := by
  obtain ⟨q, hq, hp⟩ := planned_iff.1 h
  rw [hc] at hp
  subst hp
  cases op <;> simp only [plansOf, List.mem_cons, List.not_mem_nil, or_false] at hq <;>
    rcases hq with rfl | rfl | rfl | rfl | rfl | rfl | rfl <;> simp at hw hi <;> decide

/-- A fill is followed by an install and by nothing on the bus. -/
theorem planned_fill {op : DcOp} {p : Plan} (h : Planned op p) (hf : p.fill = true) :
    p.install = true ∧ p.addr = false ∧ p.sread = false ∧ p.zero = false ∧ p.swrite = false := by
  obtain ⟨q, hq, hp⟩ := planned_iff.1 h
  rw [hp] at hf ⊢
  cases op <;> simp only [plansOf, List.mem_cons, List.not_mem_nil, or_false] at hq <;>
    rcases hq with rfl | rfl | rfl | rfl | rfl | rfl | rfl <;> simp at hf ⊢

theorem firstStep_ne_lookup (p : Plan) : firstStep p ≠ .lookup := by
  unfold firstStep
  split_ifs <;> simp

theorem firstStep_eq_cob {p : Plan} : firstStep p = .cobRead ↔ p.cob = true := by
  unfold firstStep
  split_ifs <;> simp_all

theorem cob_of_clear {p : Plan} {q : DcState} (h : (p.clear q).cob = true) :
    p.cob = true ∧ q ≠ .cobRead := by
  cases q <;> simp_all [Plan.clear]

theorem firstStep_eq_fill {p : Plan} (h : firstStep p = .fillReq) : p.fill = true := by
  unfold firstStep at h
  split_ifs at h
  assumption

theorem firstStep_eq_zero {p : Plan} (h : firstStep p = .zero) : p.zero = true := by
  unfold firstStep at h
  split_ifs at h
  assumption

theorem firstStep_eq_store {p : Plan} (h : firstStep p = .storeWrite) : p.store = true := by
  unfold firstStep at h
  split_ifs at h
  assumption

theorem firstStep_eq_install {p : Plan} (h : firstStep p = .install) : p.install = true := by
  unfold firstStep at h
  split_ifs at h
  assumption

theorem firstStep_eq_idle {p : Plan} (h : firstStep p = .idle) :
    p.store = false ∧ p.swrite = false := by
  unfold firstStep at h
  split_ifs at h
  simp_all

theorem install_of_clear {p : Plan} {q : DcState} (h : (p.clear q).install = true) :
    p.install = true := by
  cases q <;> simp_all [Plan.clear]

/-- A write in place left after a step was there before it. -/
theorem inPlace_of_clear {p : Plan} {q : DcState} (hq : firstStep p = q)
    (hw : (p.clear q).store = true ∨ (p.clear q).zero = true)
    (hi : (p.clear q).install = false) :
    (p.store = true ∨ p.zero = true) ∧ p.install = false ∧
      ((p.clear q).cob = true → p.cob = true) := by
  have hcob : (p.clear q).cob = true → p.cob = true := fun h => (cob_of_clear h).1
  have hwrite : p.store = true ∨ p.zero = true := by
    cases q <;> simp_all [Plan.clear]
  refine ⟨hwrite, ?_, hcob⟩
  cases hinst : p.install with
  | false => rfl
  | true =>
    have hqi : q = .install := by
      cases q <;> simp_all [Plan.clear]
    -- an install comes after every write
    subst hqi
    unfold firstStep at hq
    split_ifs at hq
    simp_all

/-- A plan past its castout has none left. -/
theorem firstStep_clear_ne_cob {p : Plan} {q : DcState} (h : firstStep p = q) :
    firstStep (p.clear q) ≠ .cobRead := by
  intro hcob
  obtain ⟨hp, hq⟩ := cob_of_clear (firstStep_eq_cob.1 hcob)
  exact hq (h ▸ firstStep_eq_cob.2 hp)

/-! ## The lookup's plan -/

@[simp] theorem lkInvalidate_plan (push : Bool) (l : Lk) :
    (lkInvalidate cfg s push l).plan = l.plan := rfl

@[simp] theorem lkModify_plan (l : Lk) : (lkModify cfg s l).plan = l.plan := rfl

@[simp] theorem lkAllocate_plan (l : Lk) : (lkAllocate cfg s l).plan = l.plan := by
  unfold lkAllocate
  split_ifs <;> rfl

/-- **A lookup writes a listed plan.** -/
theorem plan_lookup : Planned s.reqOp (lk cfg s i).plan := by
  have hnil : ∀ op, Planned op .none := by
    intro op
    cases op <;> decide
  have hop : { (lkOp cfg s i).plan with cob := false } ∈ plansOf s.reqOp := by
    unfold lkOp
    cases hreq : s.reqOp <;>
      simp only [lkLoad, lkStore, lkDcbz, lkDcbf, lkDcbst, lkDcbi, lkTouch, hreq] <;>
      (try split_ifs) <;> simp [plansOf, lkDefault, Plan.none]
    all_goals
      cases i.hid0Abe <;> cases s.reqWimg.m <;> cases hit cfg s <;> cases hdirty cfg s <;> simp
  unfold lk lkTea
  split_ifs
  · exact hnil _
  · have hcob : (lkPlanCob (lkAllocate cfg s (lkOp cfg s i))).plan =
        { (lkOp cfg s i).plan with cob := (lkAllocate cfg s (lkOp cfg s i)).cob } := by
      simp only [lkPlanCob, lkAllocate_plan]
    rw [hcob]
    exact hop

/-! ## The machine inside a plan -/

/-- Between lookup and idle the machine is at the first step of a plan its
operation can have left. -/
def ControlInv (s : State) : Prop :=
  ∀ p, phaseOf s.state = some p → Planned s.reqOp s.plan ∧ firstStep s.plan = p

theorem firstStep_of_phase {p : Plan} {q : DcState} (h : phaseOf (firstStep p) = some q) :
    firstStep p = q := by
  unfold firstStep at h ⊢
  split_ifs at h ⊢ <;> simp [phaseOf] at h <;> exact h

/-- A request is taken in the idle state or in a lookup only. -/
theorem state_of_reqReady (h : reqReady cfg s i = true) : s.state = .idle ∨ s.state = .lookup := by
  simp only [reqReady, Bool.and_eq_true, Bool.or_eq_true, decide_eq_true_eq] at h
  rcases h.2 with (⟨hidle, -⟩ | hfast) | hfast
  · exact Or.inl hidle
  · simp only [lkFastDone, lkFast, Bool.and_eq_true, decide_eq_true_eq] at hfast
    tauto
  · simp only [lkFastStNext, lkFastStDone, lkFastSt, Bool.and_eq_true, decide_eq_true_eq] at hfast
    tauto

theorem reqAccept_of_phase {p : DcState} (h : phaseOf s.state = some p) :
    reqAccept cfg s i = false := by
  apply not_reqAccept_of_not_ready
  cases hr : reqReady cfg s i with
  | false => rfl
  | true => rcases state_of_reqReady hr with hs | hs <;> simp [hs, phaseOf] at h

theorem lkGo_of_phase {p : DcState} (h : phaseOf s.state = some p) : lkGo cfg s i = false := by
  cases hs : s.state <;> simp [lkGo, hs, phaseOf] at h ⊢

theorem planNext_of_stepDone {p : DcState} (h : phaseOf s.state = some p)
    (hd : stepDone s i = true) : planNext s = s.plan.clear p := by
  cases hs : s.state <;> simp only [hs, phaseOf, Option.some.injEq, reduceCtorEq] at h <;>
    subst h <;> simp [planNext, hs, Plan.clear]
  all_goals simp [stepDone, hs] at hd

/-- **An edge inside a plan** finishes the step and goes to the next, stays in
the step, or ends the operation on a fill error. -/
theorem phase_step {p : DcState} (h : phaseOf s.state = some p) :
    (stepDone s i = true ∧ nextState cfg s i = firstStep (s.plan.clear p) ∧
        nextPlan cfg s i = s.plan.clear p) ∨
      (stepDone s i = false ∧ phaseOf (nextState cfg s i) = some p ∧
        nextPlan cfg s i = s.plan) ∨
      (stepDone s i = false ∧ s.state = .fillWait ∧ i.busRdValid = true ∧ i.busRdError = true ∧
        nextState cfg s i = .idle) := by
  have hgo := @lkGo_of_phase cfg s i p h
  cases hd : stepDone s i with
  | true =>
    have hplan := planNext_of_stepDone h hd
    exact Or.inl ⟨rfl, by rw [nextState, if_pos hd, stateNext, hplan],
      by rw [nextPlan, if_pos hd, hplan]⟩
  | false =>
    right
    by_cases herr : s.state = .fillWait ∧ i.busRdValid = true ∧ i.busRdError = true
    · obtain ⟨hs, hv, he⟩ := herr
      exact Or.inr ⟨rfl, hs, hv, he, by simp [nextState, hd, hs, hv, he]⟩
    · refine Or.inl ⟨rfl, ?_, ?_⟩
      · rw [nextState, hd, if_neg (by simp)]
        cases hs : s.state <;> simp only [hs, phaseOf, Option.some.injEq, reduceCtorEq] at h herr <;>
          subst h <;> simp only [true_and, not_and] at herr ⊢ <;> (try split_ifs) <;>
          simp_all [phaseOf]
      · simp only [nextPlan, hd, hgo, Bool.false_eq_true, if_false]
        rw [if_neg]
        simpa [and_assoc] using herr

/-- **A plan is entered from a lookup** that goes, answers nothing and takes no
request. -/
theorem enter_phase {q : DcState} (h : phaseOf s.state = none)
    (hq : phaseOf (nextState cfg s i) = some q) :
    s.state = .lookup ∧ lkGo cfg s i = true ∧ lkAnswers cfg s i = false ∧
      (lk cfg s i).read = false ∧ reqAccept cfg s i = false ∧
      nextState cfg s i = firstStep (lk cfg s i).plan ∧ nextPlan cfg s i = (lk cfg s i).plan := by
  have hd : stepDone s i = false := by
    cases hs : s.state <;> simp [hs, phaseOf] at h <;> simp [stepDone, hs]
  have hs : s.state = .lookup := by
    cases hs : s.state <;> simp only [hs, phaseOf, reduceCtorEq] at h <;>
      simp only [nextState, hd, hs, Bool.false_eq_true, if_false] at hq
    · split_ifs at hq <;> simp [phaseOf] at hq
    · rfl
    · simp [phaseOf] at hq
    · split_ifs at hq <;> simp [phaseOf] at hq
  simp only [nextState, hd, hs, Bool.false_eq_true, if_false] at hq ⊢
  cases hgo : lkGo cfg s i with
  | false => simp [hgo, phaseOf] at hq
  | true =>
    simp only [hgo, if_true, afterLookup] at hq ⊢
    split_ifs at hq with hans hdone hacc hread hread' hsync <;> try simp [phaseOf] at hq
    rw [Bool.not_eq_true] at hans hread'
    have hready : reqReady cfg s i = false := by
      simp only [Bool.or_eq_true, not_or, Bool.not_eq_true] at hdone
      simp [reqReady, hs, hdone.1, lkFastStNext, hdone.2]
    have hplan : nextPlan cfg s i = (lk cfg s i).plan := by simp [nextPlan, hd, hgo]
    simp [hans, hdone, hread', hsync, reqAccept, hready, hplan]

/-- **The control invariant survives every edge.** -/
theorem controlInv_step (hc : ControlInv s) : ControlInv (running cfg s i) := by
  intro q hq
  have hst : (running cfg s i).state = nextState cfg s i := rfl
  have hpl : (running cfg s i).plan = nextPlan cfg s i := rfl
  rw [hst] at hq
  rw [hpl]
  cases hp : phaseOf s.state with
  | some p =>
    have hop : (running cfg s i).reqOp = s.reqOp := by
      simp [running, reqAccept_of_phase hp]
    obtain ⟨hplanned, hfirst⟩ := hc p hp
    rw [hop]
    rcases @phase_step cfg s i _ hp with ⟨-, hn, hnp⟩ | ⟨-, hn, hnp⟩ | ⟨-, -, -, -, hn⟩
    · rw [hn] at hq
      rw [hnp]
      refine ⟨?_, firstStep_of_phase hq⟩
      have hclear := planned_clear hplanned
      rwa [hfirst] at hclear
    · rw [hn, Option.some.injEq] at hq
      rw [hnp]
      exact ⟨hplanned, hq ▸ hfirst⟩
    · simp [hn, phaseOf] at hq
  | none =>
    obtain ⟨-, -, -, -, hacc, hn, hnp⟩ := enter_phase hp hq
    have hop : (running cfg s i).reqOp = s.reqOp := by simp [running, hacc]
    rw [hn] at hq
    rw [hop, hnp]
    exact ⟨plan_lookup, firstStep_of_phase hq⟩

end Dcache
end SloPPC603
