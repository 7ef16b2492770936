import SloPPC603.Dcache.Control

/-!
# What a lookup decides

Facts about the `lk_` signals, one for each use the rest of the development makes
of a lookup.  They hold of the combinational signals, whatever the registers say;
`HitWay` is the one assumption some of them make, that a hit line is in `hway`.
-/

namespace SloPPC603
namespace Dcache

variable {cfg : Config} {s : State} {i : Input}

/-- The way `hway` names is the one that hits. -/
def HitWay (cfg : Config) (s : State) : Prop :=
  hit cfg s = true → hway cfg s < cfg.wayCount ∧ s.hitw (hway cfg s) = true ∧
    (hdirty cfg s = s.drt (hway cfg s)) ∧ ∀ w < cfg.wayCount, s.hitw w = true → w = hway cfg s

theorem victim_lt : victim cfg s < cfg.wayCount := by
  have hpos : 0 < cfg.wayCount := Nat.pow_pos (by decide)
  have hfind : ∀ p : ℕ → Bool, ((List.range cfg.wayCount).find? p).getD 0 < cfg.wayCount := by
    intro p
    cases h : (List.range cfg.wayCount).find? p with
    | none => exact hpos
    | some w => exact List.mem_range.1 (List.mem_of_find?_eq_some h)
  unfold victim
  split_ifs <;> exact hfind _

/-- The lookup before a failed tenure overrides it. -/
theorem lk_eq (h : teaBlocksLoad s i = false) :
    lk cfg s i = lkPlanCob (lkAllocate cfg s (lkOp cfg s i)) := by simp [lk, lkTea, h]

theorem lk_tea (h : teaBlocksLoad s i = true) : (lk cfg s i).plan = .none ∧
    (lk cfg s i).stWe = false ∧ (lk cfg s i).cob = false ∧ (lk cfg s i).read = false ∧
    (lk cfg s i).rsp = true ∧ (lk cfg s i).resvSet = false := by simp [lk, lkTea, h]

/-- The castout step is planned when there is a castout. -/
theorem lk_plan_cob : (lk cfg s i).plan.cob = (lk cfg s i).cob := by
  cases htea : teaBlocksLoad s i with
  | true => simp [lk_tea htea, Plan.none]
  | false => simp [lk_eq htea, lkPlanCob]

/-! ## Allocations -/

/-- An operation plans an install exactly when it allocates, and allocates on a
miss, with the line state still as it was read. -/
theorem lkOp_alloc : (lkOp cfg s i).plan.install = (lkOp cfg s i).alloc ∧
    ((lkOp cfg s i).alloc = true → hit cfg s = false ∧ (lkOp cfg s i).valid = s.vld ∧
      (lkOp cfg s i).dirty = s.drt) := by
  unfold lkOp
  cases hop : s.reqOp <;>
    simp only [lkLoad, lkStore, lkDcbz, lkDcbf, lkDcbst, lkDcbi, lkTouch, lkInhibited, hop] <;>
    (try split_ifs) <;> simp_all [lkDefault, lkModify, lkInvalidate, Plan.none]

/-- **An install** is planned on a miss, into the victim way, whose line leaves
the cache and is cast out if modified. -/
theorem lk_install (h : (lk cfg s i).plan.install = true) :
    hit cfg s = false ∧ (lk cfg s i).way = victim cfg s ∧ (lk cfg s i).stWe = true ∧
      (lk cfg s i).valid = setWay s.vld (victim cfg s) false ∧
      (lk cfg s i).dirty = setWay s.drt (victim cfg s) false ∧
      (lk cfg s i).cob = s.drt (victim cfg s) ∧
      (lk cfg s i).cobLine = cfg.lineAt (s.tag (victim cfg s)) (reqSet cfg s) := by
  cases htea : teaBlocksLoad s i with
  | true => simp [lk_tea htea, Plan.none] at h
  | false =>
    rw [lk_eq htea] at h ⊢
    have halloc : (lkOp cfg s i).alloc = true := by
      rw [← lkOp_alloc.1]
      simpa [lkPlanCob] using h
    obtain ⟨hmiss, hvalid, hdirty⟩ := lkOp_alloc.2 halloc
    simp [lkPlanCob, lkAllocate, halloc, hmiss, hvalid, hdirty]

/-- Without an install the lookup is its operation's own. -/
theorem lk_not_install (htea : teaBlocksLoad s i = false)
    (h : (lk cfg s i).plan.install = false) :
    lk cfg s i = lkPlanCob (lkOp cfg s i) ∧ (lkOp cfg s i).alloc = false := by
  rw [lk_eq htea] at h ⊢
  have halloc : (lkOp cfg s i).alloc = false := by
    rw [← lkOp_alloc.1]
    simpa [lkPlanCob] using h
  exact ⟨by simp [lkAllocate, halloc], halloc⟩

/-! ## Hits -/

/-- What an operation that allocates nothing does with the line it hits. -/
theorem lkOp_hit (halloc : (lkOp cfg s i).alloc = false) :
    (lkOp cfg s i).way = hway cfg s ∧ (lkOp cfg s i).cobLine = reqLine s ∧
      ((lkOp cfg s i).cob = true → hit cfg s = true ∧ hdirty cfg s = true) ∧
      ((lkOp cfg s i).plan.store = true ∨ (lkOp cfg s i).plan.zero = true →
        hit cfg s = true ∧ (lkOp cfg s i).valid = s.vld) := by
  unfold lkOp at halloc ⊢
  cases hop : s.reqOp <;> simp only [hop] at halloc <;>
    simp only [lkLoad, lkStore, lkDcbz, lkDcbf, lkDcbst, lkDcbi, lkTouch, lkInhibited, hop]
      at halloc ⊢ <;>
    (try split_ifs at halloc ⊢) <;> simp_all [lkDefault, lkModify, lkInvalidate, Plan.none]

/-- The way of a castout or of a planned write. -/
theorem lk_hit (h : (lk cfg s i).plan.install = false) :
    ((lk cfg s i).cob = true → hit cfg s = true ∧ hdirty cfg s = true ∧
        (lk cfg s i).way = hway cfg s ∧ (lk cfg s i).cobLine = reqLine s) ∧
      ((lk cfg s i).plan.store = true ∨ (lk cfg s i).plan.zero = true →
        hit cfg s = true ∧ (lk cfg s i).way = hway cfg s ∧ (lk cfg s i).valid = s.vld) := by
  cases htea : teaBlocksLoad s i with
  | true => simp [lk_tea htea, Plan.none]
  | false =>
    obtain ⟨hlk, halloc⟩ := lk_not_install htea h
    obtain ⟨hway, hline, hcob, hwrite⟩ := lkOp_hit halloc
    rw [hlk]
    simp only [lkPlanCob]
    exact ⟨fun hc => ⟨(hcob hc).1, (hcob hc).2, hway, hline⟩,
      fun hw => ⟨(hwrite hw).1, hway, (hwrite hw).2⟩⟩

theorem lkOp_alloc_quiet (h : (lkOp cfg s i).alloc = true ∨ (lkOp cfg s i).cob = true) :
    (lkOp cfg s i).rsp = false ∧ (lkOp cfg s i).read = false ∧ (lkOp cfg s i).sync = false := by
  unfold lkOp at h ⊢
  cases hop : s.reqOp <;> simp only [hop] at h <;>
    simp only [lkLoad, lkStore, lkDcbz, lkDcbf, lkDcbst, lkDcbi, lkTouch, lkInhibited, hop] at h ⊢ <;>
    (try split_ifs at h ⊢) <;> simp_all [lkDefault, lkModify, lkInvalidate]

/-- A lookup that casts out answers nothing yet. -/
theorem lk_cob_quiet (h : (lk cfg s i).cob = true) :
    (lk cfg s i).rsp = false ∧ (lk cfg s i).read = false ∧ (lk cfg s i).sync = false := by
  cases htea : teaBlocksLoad s i with
  | true => simp [lk_tea htea] at h
  | false =>
    rw [lk_eq htea] at h ⊢
    have hquiet : (lkOp cfg s i).alloc = true ∨ (lkOp cfg s i).cob = true := by
      simp only [lkPlanCob, lkAllocate] at h
      split_ifs at h with halloc
      · exact Or.inl halloc
      · exact Or.inr h
    obtain ⟨hrsp, hread, hsync⟩ := lkOp_alloc_quiet hquiet
    simp only [lkPlanCob, lkAllocate]
    split_ifs <;> exact ⟨hrsp, hread, hsync⟩

/-- A lookup that plans a step on the bus is no fast access. -/
theorem slow_of_plan (hgo : lkGo cfg s i = true) (hread : (lk cfg s i).read = false)
    (hplan : (lk cfg s i).plan.fill = true ∨ (lk cfg s i).plan.sread = true ∨
      (lk cfg s i).plan.cob = true) :
    s.state = .lookup ∧ (lk cfg s i).plan ≠ .none ∧ lkFastDone cfg s i = false ∧
      lkFastStDone cfg s i = false := by
  refine ⟨?_, fun hn => by simp [hn, Plan.none] at hplan, ?_, ?_⟩
  · simp only [lkGo, Bool.and_eq_true, decide_eq_true_eq] at hgo
    exact hgo.1
  · cases hf : lkFast cfg s i with
    | false => simp [lkFastDone, hf]
    | true => simp [(lkFast_spec hf).2.2.1] at hread
  · cases hf : lkFastSt cfg s i with
    | false => simp [lkFastStDone, hf]
    | true =>
      rw [(lkFastSt_spec hf).2.2] at hplan
      simp at hplan

/-- **A lookup that casts out** goes to the castout. -/
theorem nextState_of_cob (hgo : lkGo cfg s i = true) (h : (lk cfg s i).cob = true) :
    nextState cfg s i = .cobRead := by
  obtain ⟨hrsp, hread, hsync⟩ := lk_cob_quiet h
  have hplan : (lk cfg s i).plan.cob = true := by rw [lk_plan_cob, h]
  obtain ⟨hst, hne, hfast, hfastSt⟩ := slow_of_plan hgo hread (Or.inr (Or.inr hplan))
  simp [nextState, stepDone, hst, hgo, afterLookup, lkAnswers, hrsp, hne, hfast, hfastSt, hread,
    hsync, firstStep, hplan]

/-- A lookup that neither answers nor reads enters its plan. -/
theorem lookup_enters (hgo : lkGo cfg s i = true) (hrsp : (lk cfg s i).rsp = false)
    (hread : (lk cfg s i).read = false)
    (hplan : (lk cfg s i).plan.fill = true ∨ (lk cfg s i).plan.sread = true) :
    nextState cfg s i = firstStep (lk cfg s i).plan ∧ nextPlan cfg s i = (lk cfg s i).plan ∧
      reqAccept cfg s i = false := by
  obtain ⟨hst, hne, hfast, hfastSt⟩ := slow_of_plan hgo hread (by tauto)
  have hd : stepDone s i = false := by simp [stepDone, hst]
  have hsync : (lk cfg s i).sync = false := by
    have hop : (lkOp cfg s i).sync = true → (lkOp cfg s i).plan = .none := by
      unfold lkOp
      cases hop : s.reqOp <;>
        simp only [lkLoad, lkStore, lkDcbz, lkDcbf, lkDcbst, lkDcbi, lkTouch, lkInhibited, hop] <;>
        (try split_ifs) <;> simp_all [lkDefault, lkModify, lkInvalidate]
    cases hsy : (lk cfg s i).sync with
    | false => rfl
    | true =>
      exfalso
      simp only [lk, lkTea, lkPlanCob, lkAllocate] at hsy hplan
      split_ifs at hsy hplan <;> simp_all [Plan.none]
  refine ⟨?_, by simp [nextPlan, hd, hgo], ?_⟩
  · simp [nextState, hd, hst, hgo, afterLookup, lkAnswers, hrsp, hne, hfast, hfastSt, hread, hsync]
  · simp [reqAccept, reqReady, hst, hfast, lkFastStNext, hfastSt]

/-! ## Reservations -/

/-- Only a `lwarx` sets the reservation, and its lookup reads or plans its read. -/
theorem lk_resvSet (h : (lk cfg s i).resvSet = true) : s.reqOp = .lwarx ∧
    (lk cfg s i).rsp = false ∧ (lk cfg s i).err = false ∧
      ((lk cfg s i).read = true ∨ (lk cfg s i).plan.fill = true ∨
        (lk cfg s i).plan.sread = true) := by
  cases htea : teaBlocksLoad s i with
  | true => simp [lk_tea htea] at h
  | false =>
    rw [lk_eq htea] at h ⊢
    simp only [lkPlanCob, lkAllocate] at h ⊢
    have hop : (lkOp cfg s i).resvSet = true → s.reqOp = .lwarx ∧ (lkOp cfg s i).rsp = false ∧
        (lkOp cfg s i).err = false ∧ ((lkOp cfg s i).read = true ∨
          (lkOp cfg s i).plan.fill = true ∨ (lkOp cfg s i).plan.sread = true) := by
      unfold lkOp
      cases hop : s.reqOp <;>
        simp only [lkLoad, lkStore, lkDcbz, lkDcbf, lkDcbst, lkDcbi, lkTouch, lkInhibited, hop] <;>
        (try split_ifs) <;> simp_all [lkDefault, lkModify, lkInvalidate]
    split_ifs at h ⊢ <;> exact hop h

/-- A `lwarx` that its lookup does not answer sets the reservation. -/
theorem lk_lwarx (hop : s.reqOp = .lwarx) (h : (lk cfg s i).rsp = false) :
    (lk cfg s i).resvSet = true := by
  cases htea : teaBlocksLoad s i with
  | true => simp [lk_tea htea] at h
  | false =>
    have hset : (lkOp cfg s i).resvSet = true := by
      unfold lkOp
      rw [hop]
      simp only [lkLoad, lkInhibited, hop]
      split_ifs <;> simp [lkInvalidate]
    rw [lk_eq htea]
    simp only [lkPlanCob, lkAllocate]
    split_ifs <;> exact hset

/-- Every `stwcx.` gives up the reservation, and one that answers in its lookup
has not found it. -/
theorem lk_stwcx (hop : s.reqOp = .stwcx) : (lk cfg s i).resvClear = true ∧
    ((lk cfg s i).rsp = false → resvMatch s = true) := by
  have htea : teaBlocksLoad s i = false := by simp [teaBlocksLoad, hop]
  rw [lk_eq htea]
  have hlk : (lkOp cfg s i).resvClear = true ∧
      ((lkOp cfg s i).rsp = false → resvMatch s = true) := by
    unfold lkOp
    rw [hop]
    simp only [lkStore, lkInhibited, hop]
    split_ifs <;> simp_all [lkDefault, lkModify, lkInvalidate]
  simp only [lkPlanCob, lkAllocate]
  split_ifs <;> exact hlk

/-- A lookup that promises success is a `stwcx.` with its store to make. -/
theorem lk_ok (h : (lk cfg s i).ok = true) : s.reqOp = .stwcx ∧ lkAnswers cfg s i = false ∧
    ((lk cfg s i).plan.store = true ∨ (lk cfg s i).plan.swrite = true) := by
  have hop : (lkOp cfg s i).ok = true → s.reqOp = .stwcx ∧ (lkOp cfg s i).rsp = false ∧
      ((lkOp cfg s i).plan.store = true ∨ (lkOp cfg s i).plan.swrite = true) := by
    unfold lkOp
    cases hop : s.reqOp <;>
      simp only [lkLoad, lkStore, lkDcbz, lkDcbf, lkDcbst, lkDcbi, lkTouch, lkInhibited, hop] <;>
      (try split_ifs) <;> simp_all [lkDefault, lkModify, lkInvalidate]
  have hok : (lkOp cfg s i).ok = true := by
    simp only [lk, lkTea, lkPlanCob, lkAllocate] at h
    split_ifs at h <;> exact h
  obtain ⟨hreq, hrsp, hplan⟩ := hop hok
  have htea : teaBlocksLoad s i = false := by simp [teaBlocksLoad, hreq]
  have hplan' : (lk cfg s i).plan.store = true ∨ (lk cfg s i).plan.swrite = true := by
    rw [lk_eq htea]
    simpa only [lkPlanCob, lkAllocate_plan] using hplan
  have hne : (lk cfg s i).plan ≠ .none := by
    intro hn
    simp [hn, Plan.none] at hplan'
  have hrsp' : (lk cfg s i).rsp = false := by
    rw [lk_eq htea]
    simp only [lkPlanCob, lkAllocate]
    split_ifs <;> exact hrsp
  exact ⟨hreq, by simp [lkAnswers, hrsp', hne], hplan'⟩

/-! ## What a lookup takes away -/

theorem lkOp_valid_le (w : ℕ) (h : (lkOp cfg s i).valid w = true) : s.vld w = true := by
  unfold lkOp at h
  cases hop : s.reqOp <;>
    simp only [lkLoad, lkStore, lkDcbz, lkDcbf, lkDcbst, lkDcbi, lkTouch, lkInhibited, hop] at h <;>
    (try split_ifs at h) <;> simp_all [lkDefault, lkModify, lkInvalidate, setWay]

/-- A lookup makes no line valid. -/
theorem lk_valid_le (w : ℕ) (h : (lk cfg s i).valid w = true) : s.vld w = true := by
  have hle := @lkOp_valid_le cfg s i w
  simp only [lk, lkTea, lkPlanCob, lkAllocate] at h
  split_ifs at h <;> simp only [setWay] at h <;> (try split_ifs at h) <;> exact hle h

/-- A modified line an operation's own hit leaves unmodified is cast out, or
`dcbi` discards it. -/
theorem lkOp_dirty_loss {w : ℕ} (hhit : HitWay cfg s) (hv : s.vld w = true)
    (hd : s.drt w = true)
    (hloss : ¬ ((lkOp cfg s i).valid w = true ∧ (lkOp cfg s i).dirty w = true)) :
    w = hway cfg s ∧ hit cfg s = true ∧ (s.reqOp = .dcbi ∨ (lkOp cfg s i).cob = true) := by
  unfold HitWay at hhit
  unfold lkOp at hloss ⊢
  cases hop : s.reqOp <;>
    simp only [lkLoad, lkStore, lkDcbz, lkDcbf, lkDcbst, lkDcbi, lkTouch, lkInhibited, hop]
      at hloss ⊢ <;>
    (try split_ifs at hloss ⊢) <;>
    simp_all [lkDefault, lkModify, lkInvalidate, setWay]

/-- **What a lookup stops from being modified** it casts out, unless the
operation is `dcbi`. -/
theorem lk_dirty_loss {w : ℕ} (hhit : HitWay cfg s) (hv : s.vld w = true)
    (hd : s.drt w = true) (hwe : (lk cfg s i).stWe = true)
    (hloss : ¬ ((lk cfg s i).valid w = true ∧ (lk cfg s i).dirty w = true)) :
    (s.reqOp = .dcbi ∧ hit cfg s = true ∧ w = hway cfg s) ∨
      ((lk cfg s i).cob = true ∧ w = (lk cfg s i).way) := by
  cases hinst : (lk cfg s i).plan.install with
  | true =>
    obtain ⟨-, hway, -, hvalid, hdirty, hcob, -⟩ := lk_install hinst
    have hw : w = victim cfg s := by
      by_contra hne
      exact hloss (by simp [hvalid, hdirty, setWay, hne, hv, hd])
    exact Or.inr ⟨by rw [hcob, ← hw, hd], by rw [hway, hw]⟩
  | false =>
    cases htea : teaBlocksLoad s i with
    | true => simp [lk_tea htea] at hwe
    | false =>
      obtain ⟨hlk, halloc⟩ := lk_not_install htea hinst
      rw [hlk] at hloss ⊢
      obtain ⟨hw, hh, hcase⟩ := lkOp_dirty_loss hhit hv hd hloss
      rcases hcase with hdcbi | hcob
      · exact Or.inl ⟨hdcbi, hh, hw⟩
      · exact Or.inr ⟨hcob, hw.trans (lkOp_hit halloc).1.symm⟩

end Dcache
end SloPPC603
