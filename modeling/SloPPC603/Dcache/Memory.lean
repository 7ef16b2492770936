import SloPPC603.Dcache.Backing

/-!
# The cache is memory

What the processor sees of the cache and the bus together: a memory of bytes that
every answered store and `dcbz` changes and every load reads.  It is defined from
the answers taken at the response port alone.

* `ReadInv`, `readInv_step` — the words a lookup has read early.
* `AnswerInv`, `answer_step` — the answer in the registers.
* `memory`, `loads_read_memory` — every load answers what memory holds.
-/

namespace SloPPC603
namespace Dcache

open Clocked

variable {cfg : Config} {s : State} {i : Input}

/-! ## The words read early -/

/-- A way's word as read, with the bytes a fast store wrote on the reading edge. -/
def fwdWord (s : State) (w : ℕ) : BitVec 64 :=
  if s.fwdWay w then mergeBytes (if s.fwd then s.fwdBe else 0) s.fwdWdata (s.dataRdata w)
  else s.dataRdata w

theorem foldl_or_eq {p : ℕ → Bool} {f : ℕ → BitVec 64} {l : List ℕ} {w : ℕ} {acc : BitVec 64}
    (hp : ∀ v ∈ l, p v = true → v = w) :
    l.foldl (fun acc v => acc ||| if p v then f v else 0) acc =
      if ∃ v ∈ l, p v = true then acc ||| f w else acc := by
  induction l generalizing acc with
  | nil => simp
  | cons v l ih =>
    have hv := hp v (List.mem_cons_self ..)
    have hl : ∀ u ∈ l, p u = true → u = w := fun u hu => hp u (List.mem_cons_of_mem _ hu)
    rw [List.foldl_cons, ih hl]
    cases hpv : p v with
    | true =>
      obtain rfl := hv hpv
      simp [hpv, BitVec.or_assoc]
    | false => simp [hpv]

/-- The data of a hit is the word of the way that hits. -/
theorem hitData_eq (hhit : hit cfg s = true) (hw : HitWay cfg s) :
    hitData cfg s = fwdWord s (hway cfg s) := by
  obtain ⟨hlt, hhw, -, huniq⟩ := hw hhit
  unfold hitData
  rw [foldl_or_eq (p := s.hitw) (f := fun w => if s.fwdWay w then
      mergeBytes (if s.fwd then s.fwdBe else 0) s.fwdWdata (s.dataRdata w) else s.dataRdata w)
    (w := hway cfg s) (fun v hv => huniq v (List.mem_range.1 hv)),
    if_pos ⟨_, List.mem_range.2 hlt, hhw⟩]
  simp [fwdWord]

/-- The read registers hold the request's word of every way: in a lookup whose word
was read early, and where a hit is answered from them. -/
structure ReadInv (cfg : Config) (s : State) : Prop where
  early : s.earlyData = true → s.state = .lookup ∧
    ∀ w, fwdWord s w = s.dataRam w (reqSet cfg s) (reqDw s)
  reading : s.state = .readData → s.way < cfg.wayCount ∧ holds cfg s s.way (reqLine s) ∧
    ∀ w, s.dataRdata w = s.dataRam w (reqSet cfg s) (reqDw s)

theorem readInv_initial (h : (machine cfg).Initial s) : ReadInv cfg s := by
  obtain ⟨hst, -⟩ := state_initial h
  refine ⟨?_, ?_⟩
  · obtain ⟨s₀, i, hrst, rfl⟩ := h
    simp [step, hrst, reset]
  · simp [hst]

/-- The word of a request taken with a lookup's answer is read with the bytes that
lookup stores. -/
theorem early_step (hal : AloneInv s)
    (h : (running cfg s i).earlyData = true) : nextState cfg s i = .lookup ∧
    ∀ w, fwdWord (running cfg s i) w =
      (running cfg s i).dataRam w (reqSet cfg (running cfg s i)) (reqDw (running cfg s i)) := by
  have hdef : (reqAccept cfg s i && decide (s.pushSt ≠ .read) &&
      !(lkFastSt cfg s i && !s.earlyData)) = true := h
  simp only [Bool.and_eq_true, Bool.not_eq_true'] at hdef
  obtain ⟨⟨hacc, -⟩, hfastEarly⟩ := hdef
  refine ⟨nextState_of_reqAccept hacc, fun w => ?_⟩
  have hset : reqSet cfg (running cfg s i) = cfg.setOf (lineOf i.reqAddr) := by
    simp [reqSet, reqLine, running, hacc]
  have hdw : reqDw (running cfg s i) = dwOf i.reqAddr := by simp [reqDw, running, hacc]
  have hst : s.state = .idle ∨ (s.state = .lookup ∧ cfg.fastLoadHit = true ∧ s.earlyData = true) := by
    have hready := hacc
    simp only [reqAccept, reqReady, Bool.and_eq_true, Bool.or_eq_true, decide_eq_true_eq] at hready
    rcases hready.2.2 with (⟨hidle, -⟩ | hload) | hstore
    · exact Or.inl hidle
    · simp only [lkFastDone, lkFast, Bool.and_eq_true, decide_eq_true_eq] at hload
      tauto
    · simp only [lkFastStNext, lkFastStDone, Bool.and_eq_true] at hstore
      have hfast := hstore.1.1
      rw [hfast] at hfastEarly
      simp only [Bool.true_and, Bool.not_eq_false'] at hfastEarly
      simp only [lkFastSt, Bool.and_eq_true, decide_eq_true_eq] at hfast
      tauto
  have hraddr : dataRaddr cfg s i = (cfg.setOf (lineOf i.reqAddr), dwOf i.reqAddr) := by
    rcases hst with hst | ⟨hst, hcfg, he⟩
    · simp [dataRaddr, hal.push, hst]
    · simp [dataRaddr, hal.push, hst, hcfg, he]
  have hread : (running cfg s i).dataRdata w =
      s.dataRam w (cfg.setOf (lineOf i.reqAddr)) (dwOf i.reqAddr) := by
    show s.dataRam w (dataRaddr cfg s i).1 (dataRaddr cfg s i).2 = _
    rw [hraddr]
  have hram : (running cfg s i).dataRam w (cfg.setOf (lineOf i.reqAddr)) (dwOf i.reqAddr) =
      nextDataRam cfg s i w (cfg.setOf (lineOf i.reqAddr)) (dwOf i.reqAddr) := rfl
  have hno : s.state ≠ .fillWait ∧ s.state ≠ .zero ∧ s.state ≠ .storeWrite := by
    rcases hst with hst | ⟨hst, -⟩ <;> simp [hst]
  rw [hset, hdw, hram, fwdWord, hread]
  cases hfast : lkFastSt cfg s i with
  | false =>
    have hfwd : (running cfg s i).fwd = false := by
      show (reqAccept cfg s i && lkFastSt cfg s i && s.earlyData && lkFastStDw cfg s i) = false
      simp [hfast]
    have hwe : dataWayWe cfg s i w = false := by simp [dataWayWe, fillBeat, hno, hfast]
    simp [hfwd, mergeBytes_none, nextDataRam, hwe]
  | true =>
    have hearly : s.earlyData = true := by simpa [hfast] using hfastEarly
    have hfwd : (running cfg s i).fwd = lkFastStDw cfg s i := by
      show (reqAccept cfg s i && lkFastSt cfg s i && s.earlyData && lkFastStDw cfg s i) = _
      simp [hacc, hfast, hearly]
    have hway : (running cfg s i).fwdWay = s.hitw := by
      show (if lkFastSt cfg s i then s.hitw else s.fwdWay) = _
      simp [hfast]
    have hbe : (running cfg s i).fwdBe = s.reqBe := by
      show (if lkFastSt cfg s i then s.reqBe else s.fwdBe) = _
      simp [hfast]
    have hdata : (running cfg s i).fwdWdata = s.reqWdata := by
      show (if lkFastSt cfg s i then s.reqWdata else s.fwdWdata) = _
      simp [hfast]
    have hwe : dataWayWe cfg s i w = s.hitw w := by simp [dataWayWe, fillBeat, hno, hfast]
    have hdwd : dataWdw s i = reqDw s := by simp [dataWdw, fillBeat, hno]
    have hben : dataBe cfg s i = s.reqBe := by simp [dataBe, fillBeat, hno, hfast]
    have hwd : dataWdata cfg s i = s.reqWdata := by simp [dataWdata, fillBeat, hno, hfast]
    rw [hfwd, hway, hbe, hdata, nextDataRam, hwe, hdwd, hben, hwd]
    cases hhw : s.hitw w with
    | false => simp
    | true =>
      simp only [if_true, true_and, lkFastStDw, Bool.and_eq_true, decide_eq_true_eq]
      split_ifs <;> simp [mergeBytes_none]

theorem reading_step (hal : AloneInv s) (hu : Undisturbed i) (ha : ArrayInv cfg s)
    (h : nextState cfg s i = .readData) : (running cfg s i).way < cfg.wayCount ∧
    holds cfg (running cfg s i) (running cfg s i).way (reqLine (running cfg s i)) ∧
    ∀ w, (running cfg s i).dataRdata w =
      (running cfg s i).dataRam w (reqSet cfg (running cfg s i)) (reqDw (running cfg s i)) := by
  obtain ⟨hst, hgo, hread, hearly, hacc⟩ := enter_readData h
  obtain ⟨-, hsnp, -⟩ := lkGo_spec hgo
  have hown := ha.owner.req hsnp (by simp [hst])
  have hop := lk_promises.2.2.1 hread
  have hlk : hit cfg s = true ∧ (lk cfg s i).way = hway cfg s ∧ (lk cfg s i).stWe = false := by
    rw [lk_eq (hal.tea hu)] at hread ⊢
    simp only [lkPlanCob] at hread ⊢
    unfold lkOp at hread ⊢
    rcases hop with hop | hop <;> rw [hop] at hread ⊢ <;>
      simp only [lkLoad, lkInhibited] at hread ⊢ <;> (try split_ifs at hread ⊢) <;>
      simp_all [lkDefault, lkInvalidate, lkAllocate]
  obtain ⟨hhit, hlkway, hwe⟩ := hlk
  obtain ⟨hlt, hhw, -⟩ := hitWay_lookup ha.lookup ha.owner ha.lines.unique hgo hhit
  have hheld := (hitw_iff ha.lookup hown.1 hown.2).1 hhw
  have hway : (running cfg s i).way = hway cfg s := by simp [running, hgo, hlkway]
  have hdw : reqDw (running cfg s i) = reqDw s := by
    rw [reqDw, (request_running hacc).2.1, reqDw]
  rw [hway, reqLine_running hacc, reqSet_running hacc, hdw]
  refine ⟨hlt, ⟨?_, ?_⟩, fun w => ?_⟩
  · rw [validAt_running]
    simpa [hu.flash, stWe, hsnp, hgo, hwe] using hheld.1
  · rw [tagRam_running]
    simpa [installGo, hst] using hheld.2
  · have hfast : lkFastSt cfg s i = false := by
      rcases hop with hop | hop <;> simp [lkFastSt, hop]
    have hkeep : (running cfg s i).dataRam w (reqSet cfg s) (reqDw s) =
        s.dataRam w (reqSet cfg s) (reqDw s) :=
      words_still (by simp [hst]) hfast w (reqLine s) (reqDw s)
    rw [hkeep]
    show s.dataRam w (dataRaddr cfg s i).1 (dataRaddr cfg s i).2 = _
    simp [dataRaddr, hal.push, hst, hearly]

theorem readInv_step (hal : AloneInv s) (hu : Undisturbed i) (ha : ArrayInv cfg s) :
    ReadInv cfg (running cfg s i) where
  early h := early_step hal h
  reading h := reading_step hal hu ha h

/-! ## The answer in the registers -/

/-- The word has the request's bytes as memory has them. -/
def Right (s : State) (v : ℕ → ℕ → BitVec 64) (x : BitVec 64) : Prop :=
  ∀ k < 8, s.reqBe.getLsbD k = true → lane k x = lane k (v (reqLine s) (reqDw s))

/-- An answer in the response registers to a load is right. -/
def AnswerInv (s : State) (v : ℕ → ℕ → BitVec 64) : Prop :=
  s.rsp.valid = true → s.reqOp = .load ∨ s.reqOp = .lwarx →
    s.rsp.error = false ∧ Right s v s.rsp.data

/-- The word of the way that holds the request's line, outside steps that change it. -/
theorem right_of_held {v : ℕ → ℕ → BitVec 64} {t : Traffic} {b : Bus}
    (hi : ContentsInv cfg s t b v) (hp : phaseOf s.state = none) {w : ℕ} (hw : w < cfg.wayCount)
    (hh : holds cfg s w (reqLine s)) : Right s v (s.dataRam w (reqSet cfg s) (reqDw s)) := by
  have hx := hi.held w hw _ hh
  rw [if_pos rfl] at hx
  have hplain := plain_of_inPlace hx (by rintro h; simp [h, phaseOf] at hp)
    (by rintro h; simp [h, phaseOf] at hp) (by rintro h; simp [h, phaseOf] at hp)
    (reqDw s) (Nat.mod_lt _ (by decide))
  intro k _ _
  have hword : lineWords cfg s w (reqLine s) (reqDw s) = s.dataRam w (reqSet cfg s) (reqDw s) := rfl
  rw [← hword, hplain]

/-- The data of a hit in a lookup whose word was read early. -/
theorem right_of_hitData {v : ℕ → ℕ → BitVec 64} {t : Traffic} {b : Bus} (ha : ArrayInv cfg s)
    (hri : ReadInv cfg s) (hi : ContentsInv cfg s t b v) (hgo : lkGo cfg s i = true)
    (hhit : hit cfg s = true) (hearly : s.earlyData = true) : Right s v (hitData cfg s) := by
  obtain ⟨hst, hsnp, -⟩ := lkGo_spec hgo
  have hown := ha.owner.req hsnp (by simp [hst])
  have hway := hitWay_lookup ha.lookup ha.owner ha.lines.unique hgo
  obtain ⟨hlt, hhw, -⟩ := hway hhit
  rw [hitData_eq hhit hway, (hri.early hearly).2]
  exact right_of_held hi (by rw [hst]; rfl) hlt ((hitw_iff ha.lookup hown.1 hown.2).1 hhw)

/-- A load is not answered without its data. -/
theorem lkAnswers_of_load (hop : s.reqOp = .load ∨ s.reqOp = .lwarx)
    (htea : teaBlocksLoad s i = false) : lkAnswers cfg s i = false ∧
      ((lk cfg s i).read = true → hit cfg s = true) := by
  have hlk : (lkOp cfg s i).rsp = false ∧ ((lkOp cfg s i).read = true ∨
      (lkOp cfg s i).plan.fill = true ∨ (lkOp cfg s i).plan.sread = true) ∧
      ((lkOp cfg s i).read = true → hit cfg s = true) := by
    unfold lkOp
    rcases hop with hop | hop <;> rw [hop] <;> simp only [lkLoad, lkInhibited] <;>
      split_ifs <;> simp_all [lkDefault, lkInvalidate]
  have hplan : (lk cfg s i).plan = { (lkOp cfg s i).plan with cob := (lk cfg s i).plan.cob } := by
    rw [lk_eq htea]
    simp only [lkPlanCob, lkAllocate_plan]
  have hrest : (lk cfg s i).rsp = (lkOp cfg s i).rsp ∧ (lk cfg s i).read = (lkOp cfg s i).read := by
    rw [lk_eq htea]
    simp only [lkPlanCob]
    unfold lkAllocate
    split_ifs <;> exact ⟨rfl, rfl⟩
  refine ⟨?_, by rw [hrest.2]; exact hlk.2.2⟩
  rcases hlk.2.1 with h | h | h <;> simp [lkAnswers, hrest, hlk.1, h]
  all_goals
    intro hn
    rw [hplan] at hn
    simp [Plan.none, h] at hn

theorem rspCleared_valid (h : (rspCleared s i).valid = true) :
    s.rsp.valid = true ∧ rspCleared s i = s.rsp := by
  unfold rspCleared at h ⊢
  split_ifs at h ⊢
  exact ⟨h, rfl⟩

theorem left_read_last : ∀ op, ∀ p ∈ leftPlans op, op = .load ∨ op = .lwarx →
    firstStep p ≠ .idle → firstStep p.rest = .idle → firstStep p = .sreadReq ∨ firstStep p = .install := by
  intro op
  cases op <;> decide

/-- A load is answered by its data, not by the end of its last step. -/
theorem not_answers_of_load (hc : ControlInv s) (ho : OperationInv s)
    (hop : s.reqOp = .load ∨ s.reqOp = .lwarx) : stepAnswers s i = false := by
  cases hans : stepAnswers s i with
  | false => rfl
  | true =>
    simp only [stepAnswers, Bool.and_eq_true, decide_eq_true_eq, Bool.not_eq_true'] at hans
    obtain ⟨⟨⟨hd, hidle⟩, hsent⟩, hnr⟩ := hans
    have hphase : phaseOf s.state ≠ none := by
      cases hst : s.state <;> simp [hst, phaseOf, stepDone] at hd ⊢
    obtain ⟨p, hp⟩ := Option.ne_none_iff_exists'.1 hphase
    have hfirst := (hc p hp).2
    have hrest : firstStep s.plan.rest = .idle := by
      rw [stateNext, planNext_of_stepDone hp hd, ← hfirst] at hidle
      exact hidle
    have hne : p ≠ .idle := by
      rintro rfl
      cases hst : s.state <;> simp [hst, phaseOf] at hp
    have hearly : earlyRspOp s = true := by
      rw [earlyRspOp_iff]
      tauto
    rcases left_read_last _ _ (ho.left hphase) hop (hfirst ▸ hne) hrest with h | h
    · rw [hfirst] at h
      subst h
      cases hst : s.state <;> simp [hst, phaseOf] at hp
      · simp [stepDone, hst] at hd
      · exact absurd hst hnr
    · rw [hfirst] at h
      subst h
      cases hst : s.state <;> simp [hst, phaseOf] at hp
      have hs := ho.sent (by simp [hst])
      simp [hst, hearly, hsent] at hs

/-- **The answer to a load stays right**, and is right when it is written. -/
theorem answer_step {v : ℕ → ℕ → BitVec 64} {t : Traffic} {b : Bus} (hu : Undisturbed i)
    (hr : BusReads b i) (hal : AloneInv s) (hcoh : CoherentInv cfg s t) (hrs : ResponseInv s)
    (ho : OperationInv s) (hri : ReadInv cfg s) (hi : ContentsInv cfg s t b v)
    (han : AnswerInv s v) : AnswerInv (running cfg s i) (contentsNext cfg s i v) := by
  have ha := hcoh.arrays
  intro hvalid hop
  have hacc : reqAccept cfg s i = false := by
    cases hacc : reqAccept cfg s i with
    | false => rfl
    | true =>
      have hl := ((responseInv_step (i := i) hrs).lookup (nextState_of_reqAccept hacc)).1
      simp [hl] at hvalid
  obtain ⟨hopd, haddr, hbe, -⟩ := @request_running cfg s i hacc
  rw [hopd] at hop
  have hwr : ¬ Writes s.reqOp := by rcases hop with hop | hop <;> simp [Writes, hop]
  have hright : ∀ x, Right s v x → Right (running cfg s i) (contentsNext cfg s i v) x := by
    intro x hx
    unfold Right reqLine reqDw
    rw [contentsNext_of_reads hwr, haddr, hbe]
    exact hx
  have hno := not_answers_of_load (i := i) ha.control ho hop
  have hrsp : (running cfg s i).rsp = rspFsm cfg s i := by
    show nextRsp cfg s i = _
    simp [nextRsp, hno]
  rw [hrsp] at hvalid ⊢
  have hkept : rspFsm cfg s i = rspCleared s i → (rspFsm cfg s i).error = false ∧
      Right (running cfg s i) (contentsNext cfg s i v) (rspFsm cfg s i).data := by
    intro heq
    rw [heq] at hvalid ⊢
    obtain ⟨hold, hsame⟩ := rspCleared_valid hvalid
    rw [hsame]
    obtain ⟨herr, hdata⟩ := han hold hop
    exact ⟨herr, hright _ hdata⟩
  cases hst : s.state
  case lookup =>
    cases hgo : lkGo cfg s i with
    | false => exact hkept (by simp [rspFsm, hst, hgo])
    | true =>
      obtain ⟨hans, hhit⟩ := @lkAnswers_of_load cfg s i hop (hal.tea hu)
      cases hfast : lkFastDone cfg s i || lkFastStDone cfg s i with
      | true => exact hkept (by simp [rspFsm, hst, hgo, hans, hfast])
      | false =>
        cases hread : (lk cfg s i).read && s.earlyData with
        | false => exact hkept (by simp [rspFsm, hst, hgo, hans, hfast, hread])
        | true =>
          have heq : rspFsm cfg s i =
              { rspCleared s i with valid := true, data := hitData cfg s } := by
            simp [rspFsm, hst, hgo, hans, hfast, hread]
          rw [Bool.and_eq_true] at hread
          have hnone := (hrs.lookup hst).1
          rw [heq, rspCleared_of_invalid hnone]
          exact ⟨(hrs.status hnone).1,
            hright _ (right_of_hitData ha hri hi hgo (hhit hread.1) hread.2)⟩
  case readData =>
    obtain ⟨hlt, hheld, hdata⟩ := hri.reading hst
    have heq : rspFsm cfg s i = { valid := true, data := s.dataRdata s.way } := by
      simp [rspFsm, hst]
    rw [heq, hdata]
    exact ⟨rfl, hright _ (right_of_held hi (by rw [hst]; rfl) hlt hheld)⟩
  case syncWait =>
    rcases hop with hop | hop <;> simp [ho.syncing hst] at hop
  case fillWait =>
    have herr : (i.busRdValid && i.busRdError) = false := by
      rw [Bool.and_eq_false_imp]
      exact hu.noRdError
    by_cases hb : fillBeat s i = true ∧ s.stepIdx = 0 ∧ earlyRspOp s = true
    · have heq : rspFsm cfg s i = { valid := true, data := i.busRdData } := by
        simp [rspFsm, hst, herr, hb]
      have hdw : fillDw s = reqDw s := by
        rw [fillDw, hb.2.1, Nat.add_zero]
        exact Nat.mod_eq_of_lt (Nat.mod_lt _ (by decide))
      rw [heq, fill_beat hr ha hcoh.traffic ho hi hb.1, hdw]
      exact ⟨rfl, hright _ (fun _ _ _ => rfl)⟩
    · apply hkept
      have hb' : (fillBeat s i && decide (s.stepIdx = 0) && earlyRspOp s) = false := by
        rw [← Bool.not_eq_true, Bool.and_eq_true, Bool.and_eq_true, decide_eq_true_iff, and_assoc]
        exact hb
      simp [rspFsm, hst, herr, hb']
  case sreadWait =>
    cases hv : i.busRdValid with
    | false => exact hkept (by simp [rspFsm, hst, hv])
    | true =>
      have heq : rspFsm cfg s i = { valid := true, data := i.busRdData } := by
        simp [rspFsm, hst, hv, hu.noRdError hv]
      have hp : phaseOf s.state = some .sreadReq := by rw [hst]; rfl
      obtain ⟨hburst, hline, hdw, hbeb⟩ := hi.single hst
      have hsread := (left_sread _ _ (ho.left (by simp [hp])) (ha.control _ hp).2).1
      have hback := hi.backed (reqLine s)
        (fun w hw hh => hi.absent (by simp [hp]) (Or.inl hsread) w hw hh.1) (reqDw s)
        (Nat.mod_lt _ (by decide))
      have hnone := castout_none hcoh.traffic (by rw [hp]; simp)
      simp only [backing, hnone] at hback
      rw [heq]
      refine ⟨rfl, hright _ (fun k hk hkb => ?_)⟩
      have hlane := hr.single hv hburst k hk (by rw [hbeb]; exact hkb)
      rw [hlane, hline, hdw, hback]
  all_goals exact hkept (by simp [rspFsm, hst])

/-! ## Memory, as the answers change it -/

/-- Memory by line, double word and byte lane, after the operation being answered: a
store, or a `stwcx.` that succeeds, writes its bytes, and a `dcbz` that is not
refused zeroes its line. -/
def answered (s : State) (m : ℕ → ℕ → ℕ → BitVec 8) (line d k : ℕ) : BitVec 8 :=
  if (s.reqOp = .store ∨ (s.reqOp = .stwcx ∧ s.rsp.ok = true)) ∧ line = reqLine s ∧
      d = reqDw s ∧ s.reqBe.getLsbD k = true then lane k s.reqWdata
  else if s.reqOp = .dcbz ∧ s.rsp.align = false ∧ line = reqLine s then 0
  else m line d k

/-- The words of the contents are the bytes of memory, an answer not yet taken
counted as taken. -/
def Agree (s : State) (v : ℕ → ℕ → BitVec 64) (m : ℕ → ℕ → ℕ → BitVec 8) : Prop :=
  ∀ line d, ∀ k < 8, lane k (v line d) = if s.rsp.valid then answered s m line d k else m line d k

/-- The answer says the operation in progress writes what `performed` writes. -/
theorem lane_performed {v : ℕ → ℕ → BitVec 64} {m : ℕ → ℕ → ℕ → BitVec 8} {s' : State}
    (hreq : s'.reqOp = s.reqOp ∧ s'.reqAddr = s.reqAddr ∧ s'.reqBe = s.reqBe ∧
      s'.reqWdata = s.reqWdata)
    (hok : s.reqOp = .stwcx → s'.rsp.ok = true) (halign : s.reqOp = .dcbz → s'.rsp.align = false)
    {line d k : ℕ} (hk : k < 8) (hm : lane k (v line d) = m line d k) :
    lane k (performed s v line d) = answered s' m line d k := by
  obtain ⟨hop, haddr, hbe, hdata⟩ := hreq
  unfold answered performed reqLine reqDw
  rw [hop, haddr, hbe, hdata]
  by_cases hw : s.reqOp = .store ∨ s.reqOp = .stwcx
  · have hw' : s.reqOp = .store ∨ (s.reqOp = .stwcx ∧ s'.rsp.ok = true) :=
      hw.imp id (fun h => ⟨h, hok h⟩)
    have hz : s.reqOp ≠ .dcbz := by rcases hw with hw | hw <;> simp [hw]
    by_cases hat : line = lineOf s.reqAddr ∧ d = dwOf s.reqAddr
    · obtain ⟨rfl, rfl⟩ := hat
      rw [if_pos ⟨hw, rfl, rfl⟩, lane_mergeBytes _ _ _ hk, hm]
      simp [hw', hz]
    · rw [if_neg (fun h => hat h.2), if_neg (fun h => hz h.1), if_neg (fun h => hat ⟨h.2.1, h.2.2.1⟩),
        if_neg (fun h => hz h.1)]
      exact hm
  · push Not at hw
    have hz' : lane k (0 : BitVec 64) = 0 := by simp [lane]
    by_cases hz : s.reqOp = .dcbz
    · simp only [hz, halign hz, reduceCtorEq, false_or, false_and, if_false, true_and]
      split_ifs
      · exact hz'
      · exact hm
    · simp only [hw, hz, false_or, false_and, if_false]
      exact hm

theorem answered_of_reads {m : ℕ → ℕ → ℕ → BitVec 8}
    (h : s.reqOp ≠ .store ∧ (s.reqOp = .stwcx → s.rsp.ok = false) ∧
      (s.reqOp = .dcbz → s.rsp.align = true)) : answered s m = m := by
  funext line d k
  unfold answered
  have h1 : ¬ (s.reqOp = .store ∨ (s.reqOp = .stwcx ∧ s.rsp.ok = true)) := by
    rintro (hs | ⟨hs, hok⟩)
    · exact h.1 hs
    · simp [h.2.1 hs] at hok
  have h2 : ¬ (s.reqOp = .dcbz ∧ s.rsp.align = false ∧ line = reqLine s) := by
    rintro ⟨hz, ha, -⟩
    simp [h.2.2 hz] at ha
  rw [if_neg (fun hc => h1 hc.1), if_neg h2]

theorem lkOp_cob : (lkOp cfg s i).plan.cob = false := by
  unfold lkOp
  cases hop : s.reqOp <;>
    simp only [lkLoad, lkStore, lkDcbz, lkDcbf, lkDcbst, lkDcbi, lkTouch, lkInhibited] <;>
    (try split_ifs) <;> rfl

/-- An operation its lookup answers changes nothing, and says so. -/
theorem lkAnswers_spec (htea : teaBlocksLoad s i = false) (h : lkAnswers cfg s i = true) :
    s.reqOp ≠ .store ∧ (s.reqOp = .stwcx → (lk cfg s i).ok = false) ∧
      (s.reqOp = .dcbz → (lk cfg s i).align = true) := by
  have hop : (lkOp cfg s i).rsp = true ∨
      ((lkOp cfg s i).plan = .none ∧ (lkOp cfg s i).read = false ∧ (lkOp cfg s i).sync = false) →
      s.reqOp ≠ .store ∧ (s.reqOp = .stwcx → (lkOp cfg s i).ok = false) ∧
        (s.reqOp = .dcbz → (lkOp cfg s i).align = true) := by
    unfold lkOp
    cases hop : s.reqOp <;> simp only [lkStore, lkDcbz, lkInhibited] <;> (try split_ifs) <;>
      simp_all [lkDefault, lkModify, lkInvalidate, Plan.none]
  have hsame : (lk cfg s i).rsp = (lkOp cfg s i).rsp ∧ (lk cfg s i).read = (lkOp cfg s i).read ∧
      (lk cfg s i).sync = (lkOp cfg s i).sync ∧ (lk cfg s i).ok = (lkOp cfg s i).ok ∧
      (lk cfg s i).align = (lkOp cfg s i).align := by
    rw [lk_eq htea]
    simp only [lkPlanCob]
    unfold lkAllocate
    split_ifs <;> exact ⟨rfl, rfl, rfl, rfl, rfl⟩
  have hplan : (lk cfg s i).plan = .none → (lkOp cfg s i).plan = .none := by
    have hcob : (lkOp cfg s i).plan.cob = false := lkOp_cob
    rw [lk_eq htea]
    simp only [lkPlanCob, lkAllocate_plan]
    intro hn
    rw [← hn]
    have hc := congrArg Plan.cob hn
    simp only [Plan.none] at hc
    rw [hc, ← hcob]
  obtain ⟨hrsp, hread, hsync, hok, halign⟩ := hsame
  rw [hok, halign]
  apply hop
  simp only [lkAnswers, Bool.or_eq_true, Bool.and_eq_true, decide_eq_true_eq, Bool.not_eq_true',
    hrsp, hread, hsync] at h
  exact h.imp id (fun h => ⟨hplan h.1.1, h.1.2, h.2⟩)

/-- What the response registers are written with, when nothing waits in them and no
operation is performed, changes no memory. -/
theorem answered_of_written {m : ℕ → ℕ → ℕ → BitVec 8} (hu : Undisturbed i) (hal : AloneInv s)
    (hc : ControlInv s) (ho : OperationInv s) (hnone : s.rsp.valid = false)
    (hvalid : (rspFsm cfg s i).valid = true) {s' : State} (hop : s'.reqOp = s.reqOp)
    (hrsp : s'.rsp = rspFsm cfg s i) : answered s' m = m := by
  have hclear : (rspCleared s i).valid = false := cleared_of_pending hnone
  have hreads : ¬ Writes s.reqOp → answered s' m = m := by
    intro hw
    apply answered_of_reads
    unfold Writes at hw
    push Not at hw
    simp [hop, hw]
  have hlost : rspFsm cfg s i = rspCleared s i → answered s' m = m := by
    intro heq
    rw [heq, hclear] at hvalid
    cases hvalid
  cases hst : s.state
  case lookup =>
    cases hgo : lkGo cfg s i with
    | false => exact hlost (by simp [rspFsm, hst, hgo])
    | true =>
      cases hans : lkAnswers cfg s i with
      | true =>
        have heq : rspFsm cfg s i =
            ⟨true, (lk cfg s i).err, (lk cfg s i).align, (lk cfg s i).ok, 0⟩ := by
          simp [rspFsm, hst, hgo, hans]
        apply answered_of_reads
        rw [hrsp, heq, hop]
        exact lkAnswers_spec (hal.tea hu) hans
      | false =>
        cases hfast : lkFastDone cfg s i || lkFastStDone cfg s i with
        | true => exact hlost (by simp [rspFsm, hst, hgo, hans, hfast])
        | false =>
          cases hread : (lk cfg s i).read && s.earlyData with
          | false => exact hlost (by simp [rspFsm, hst, hgo, hans, hfast, hread])
          | true =>
            rw [Bool.and_eq_true] at hread
            apply hreads
            rcases lk_promises.2.2.1 hread.1 with h | h <;> simp [Writes, h]
  case readData =>
    apply hreads
    rcases ho.reading hst with h | h <;> simp [Writes, h]
  case syncWait =>
    apply hreads
    simp [Writes, ho.syncing hst]
  case fillWait =>
    have herr : (i.busRdValid && i.busRdError) = false := by
      rw [Bool.and_eq_false_imp]
      exact hu.noRdError
    cases he : earlyRspOp s with
    | false => exact hlost (by simp [rspFsm, hst, herr, he])
    | true =>
      apply hreads
      intro hw
      simp [earlyRspOp_of_writes hw] at he
  case sreadWait =>
    have hp : phaseOf s.state = some .sreadReq := by rw [hst]; rfl
    apply hreads
    rcases (left_sread _ _ (ho.left (by simp [hp])) (hc _ hp).2).2.1 with h | h <;>
      simp [Writes, h]
  all_goals exact hlost (by simp [rspFsm, hst])

/-- Registers with an answer in them wait for it to be taken. -/
theorem rspFsm_of_valid (hu : Undisturbed i) (hrs : ResponseInv s) (ho : OperationInv s)
    (hv : s.rsp.valid = true) : nextRsp cfg s i = rspCleared s i ∧ stepAnswers s i = false := by
  have hsent : s.state ≠ .idle → s.rspSent = true := by
    intro hne
    by_contra hs
    rw [Bool.not_eq_true] at hs
    simp [hrs.pending hne hs] at hv
  have hno : stepAnswers s i = false := by
    cases hans : stepAnswers s i with
    | false => rfl
    | true =>
      simp only [stepAnswers, Bool.and_eq_true, decide_eq_true_eq, Bool.not_eq_true'] at hans
      have hne : s.state ≠ .idle := by
        rintro hst
        simp [stepDone, hst] at hans
      simp [hsent hne] at hans
  refine ⟨?_, hno⟩
  rw [nextRsp, hno, if_neg (by simp)]
  have hformula : ∀ q, s.state = q → q ≠ .idle →
      (earlyRspOp s && ((q = .fillWait && s.stepIdx ≠ 0) || q = .install)) = true := by
    rintro q rfl hne
    rw [← ho.sent hne]
    exact hsent hne
  have herr : (i.busRdValid && i.busRdError) = false := by
    rw [Bool.and_eq_false_imp]
    exact hu.noRdError
  cases hst : s.state
  case lookup => simp [(hrs.lookup hst).1] at hv
  case readData => simpa using hformula _ hst (by simp)
  case syncWait => simpa using hformula _ hst (by simp)
  case sreadWait => simpa using hformula _ hst (by simp)
  case fillWait =>
    have h := hformula _ hst (by simp)
    simp only [decide_true, Bool.true_and, reduceCtorEq, decide_false, Bool.or_false,
      Bool.and_eq_true, decide_eq_true_eq] at h
    simp [rspFsm, hst, herr, h.2]
  all_goals simp [rspFsm, hst]

/-- **The contents and the memory the answers make stay the same.** -/
theorem agree_step {v : ℕ → ℕ → BitVec 64} {m : ℕ → ℕ → ℕ → BitVec 8} (hu : Undisturbed i)
    (hal : AloneInv s) (hc : ControlInv s) (hrs : ResponseInv s) (ho : OperationInv s)
    (hm : Agree s v m) : Agree (running cfg s i) (contentsNext cfg s i v)
      (if rspTaken cfg s i then answered s m else m) := by
  have hrsp : (running cfg s i).rsp = nextRsp cfg s i := rfl
  cases hv : s.rsp.valid with
  | true =>
    -- an answer waits: taken, or still waiting
    obtain ⟨hnext, hno⟩ := @rspFsm_of_valid cfg s i hu hrs ho hv
    have hnl : s.state ≠ .lookup := by
      rintro hst
      simp [(hrs.lookup hst).1] at hv
    have hval : contentsNext cfg s i v = v := by
      simp [contentsNext, hno, lkFastStDone_of_state hnl]
    have hload : lkFast cfg s i = false := by simp [lkFast, hnl]
    have htaken : rspTaken cfg s i = i.rspReady := by simp [rspTaken, rspValid, hv]
    have hacc : reqAccept cfg s i = false := by
      simp [reqAccept, reqReady, hv, lkFastDone, hload, lkFastStNext, lkFastStDone_of_state hnl]
    intro line d k hk
    have hold := hm line d k hk
    rw [hv, if_pos rfl] at hold
    rw [hval, hold, hrsp, hnext, htaken]
    cases hready : i.rspReady with
    | true => simp [rspCleared, hv, hready]
    | false =>
      have hsame : rspCleared s i = s.rsp := by simp [rspCleared, hready]
      obtain ⟨hop, haddr, hbe, hdata⟩ := @request_running cfg s i hacc
      have hans : answered (running cfg s i) m line d k = answered s m line d k := by
        unfold answered reqLine reqDw
        rw [hop, haddr, hbe, hdata, hrsp, hnext, hsame]
      rw [hsame, hv, if_pos rfl, if_neg (by simp), hans]
  | false =>
    have hm : ∀ line d, ∀ k < 8, lane k (v line d) = m line d k := by
      intro line d k hk
      have hold := hm line d k hk
      rwa [hv, if_neg (by simp)] at hold
    have htaken : rspTaken cfg s i = (lkFastDone cfg s i || lkFastStDone cfg s i) := by
      simp only [rspTaken, rspValid, hv, lkFastDone, lkFastStDone, Bool.false_or]
      cases i.rspReady <;> simp
    have hfsm : ∀ hf : (lkFastDone cfg s i || lkFastStDone cfg s i) = true,
        (nextRsp cfg s i).valid = false ∧ stepAnswers s i = false := by
      intro hf
      have hspec : lkGo cfg s i = true ∧ lkAnswers cfg s i = false := by
        rw [Bool.or_eq_true, lkFastDone, lkFastStDone, Bool.and_eq_true, Bool.and_eq_true] at hf
        rcases hf with ⟨hf, -⟩ | ⟨hf, -⟩
        · exact ⟨(lkFast_spec hf).1, (lkFast_spec hf).2.1⟩
        · exact ⟨(lkFastSt_spec hf).1, (lkFastSt_spec hf).2.1⟩
      have hst := (lkGo_spec hspec.1).1
      have hno : stepAnswers s i = false := by simp [stepAnswers, stepDone, hst]
      exact ⟨by simp [nextRsp, hno, rspFsm, hst, hspec, hf, cleared_of_pending hv], hno⟩
    intro line d k hk
    rw [htaken, hrsp]
    cases hst : lkFastStDone cfg s i with
    | true =>
      -- a fast store is performed and answered at once
      have hop : s.reqOp = .store := by
        simp only [lkFastStDone, lkFastSt, Bool.and_eq_true, decide_eq_true_eq] at hst
        tauto
      have hload : lkFastDone cfg s i = false := by simp [lkFastDone, lkFast, hop]
      rw [hst, hload] at hfsm
      rw [hload, (hfsm rfl).1, if_neg (by simp), Bool.or_true, if_pos rfl,
        show contentsNext cfg s i v = performed s v by simp [contentsNext, hst]]
      exact lane_performed ⟨rfl, rfl, rfl, rfl⟩ (by simp [hop]) (by simp [hop]) hk (hm line d k hk)
    | false =>
      cases hload : lkFastDone cfg s i with
      | true =>
        have hop : s.reqOp = .load := by
          simp only [lkFastDone, lkFast, Bool.and_eq_true, decide_eq_true_eq] at hload
          tauto
        rw [hst, hload] at hfsm
        rw [(hfsm rfl).1, if_neg (by simp), Bool.or_false, if_pos rfl,
          contentsNext_of_reads (by simp [Writes, hop]), answered_of_reads (by simp [hop])]
        exact hm line d k hk
      | false =>
        simp only [Bool.or_false, Bool.false_eq_true, if_false]
        cases hans : stepAnswers s i with
        | true =>
          -- the last step performs the operation and answers it
          have hd : stepDone s i = true := by
            simp only [stepAnswers, Bool.and_eq_true] at hans
            exact hans.1.1.1
          have hphase : phaseOf s.state ≠ none := by
            cases hs : s.state <;> simp [hs, phaseOf, stepDone] at hd ⊢
          obtain ⟨p, hp⟩ := Option.ne_none_iff_exists'.1 hphase
          have hnext : nextRsp cfg s i = { valid := true, ok := s.stwcxOk } := by
            simp [nextRsp, hans]
          rw [hnext, if_pos rfl,
            show contentsNext cfg s i v = performed s v by simp [contentsNext, hans]]
          refine lane_performed (request_running (reqAccept_of_phase hp)) ?_ ?_ hk (hm line d k hk)
          · intro hop
            rw [hrsp, hnext]
            exact ho.success hphase hop
          · intro hop
            rw [hrsp, hnext]
        | false =>
          have hval : contentsNext cfg s i v = v := by simp [contentsNext, hans, hst]
          have hnext : nextRsp cfg s i = rspFsm cfg s i := by simp [nextRsp, hans]
          rw [hval, hm line d k hk, hnext]
          split_ifs with hvalid
          · have hacc : reqAccept cfg s i = false := by
              cases hacc : reqAccept cfg s i with
              | false => rfl
              | true =>
                have hl := ((responseInv_step (i := i) hrs).lookup (nextState_of_reqAccept hacc)).1
                rw [hrsp, hnext, hvalid] at hl
                cases hl
            rw [answered_of_written hu hal hc ho hv hvalid (request_running hacc).1
              (hrsp.trans hnext)]
          · rfl

/-! ## Every run -/

section Run

variable (r : Run (machine cfg)) (mem : ℕ → ℕ → BitVec 64)

/-- Memory as the answers taken so far have left it, byte by byte. -/
def memory (n : ℕ) : ℕ → ℕ → ℕ → BitVec 8 :=
  r.history (fun line d k => lane k (mem line d))
    (fun m s i => if rspTaken cfg s i then answered s m else m) n

variable {r mem}

theorem memory_run {n : ℕ} (h : MemoryEnv r mem n) : ReadInv cfg (r.state n) ∧
    AnswerInv (r.state n) (contents r mem n) ∧
    Agree (r.state n) (contents r mem n) (memory r mem n) := by
  induction n with
  | zero =>
    have hrsp : r.start.rsp.valid = false := by
      obtain ⟨s₀, i, hrst, heq⟩ := r.initial
      rw [heq, step, if_neg (by simp [hrst])]
      rfl
    refine ⟨readInv_initial r.initial, ?_, ?_⟩
    · intro hv
      rw [Run.state_zero, hrsp] at hv
      cases hv
    · intro line d k _
      rw [Run.state_zero, hrsp, if_neg (by simp)]
      rfl
  | succ n ih =>
    have hold : MemoryEnv r mem n :=
      ⟨h.undisturbed.mono n.le_succ, fun k hk => h.reads k (by omega)⟩
    have hu : Undisturbed (r.input n) := h.undisturbed n n.lt_succ_self
    have hrun : r.Obeys OutOfReset n := hold.undisturbed.imp (fun _ _ hi => hi.running)
    obtain ⟨hal, ho⟩ := undisturbed_run hold.undisturbed
    have hcoh := coherentInv_run hrun
    have hrs := responseInv_run hrun
    have hi := contentsInv_run hold
    obtain ⟨hri, han, hm⟩ := ih hold
    have hn : r.state (n + 1) = running cfg (r.state n) (r.input n) := step_running hu.running
    rw [hn]
    exact ⟨readInv_step hal hu hcoh.arrays,
      answer_step hu (h.reads n n.lt_succ_self) hal hcoh hrs ho hri hi han,
      agree_step hu hal hcoh.arrays.control hrs ho hm⟩

/-- The answer to a load, where the response port offers it. -/
theorem answer_right {v : ℕ → ℕ → BitVec 64} {t : Traffic} {b : Bus} (hcoh : CoherentInv cfg s t)
    (hrs : ResponseInv s) (hri : ReadInv cfg s) (hi : ContentsInv cfg s t b v)
    (han : AnswerInv s v) (hop : s.reqOp = .load ∨ s.reqOp = .lwarx)
    (hv : rspValid cfg s i = true) : s.rsp.error = false ∧ Right s v (rspData cfg s i) := by
  cases hfast : lkFast cfg s i with
  | true =>
    -- answered from the read registers in the lookup itself
    have hearly : s.earlyData = true ∧ hit cfg s = true := by
      simp only [lkFast, Bool.and_eq_true, decide_eq_true_eq] at hfast
      tauto
    have hgo := (lkFast_spec hfast).1
    have hclear := (hrs.lookup (lkGo_spec hgo).1).1
    rw [rspData, hfast, if_pos rfl]
    exact ⟨(hrs.status hclear).1, right_of_hitData hcoh.arrays hri hi hgo hearly.2 hearly.1⟩
  | false =>
    have hst : lkFastSt cfg s i = false := by
      rcases hop with hop | hop <;> simp [lkFastSt, hop]
    have hvalid : s.rsp.valid = true := by simpa [rspValid, hfast, hst] using hv
    rw [rspData, hfast, if_neg (by simp)]
    exact han hvalid hop

/-- **The cache is memory.**  Whatever mixture of operations, modes, stalls and bus
timings a run has, and wherever the line has been meanwhile, a load that is answered
is answered without an error, each byte asked for as the last `store`, `stwcx.` or
`dcbz` answered before it left that byte. -/
theorem loads_read_memory {n : ℕ} (h : MemoryEnv r mem (n + 1))
    (hop : (r.state n).reqOp = .load ∨ (r.state n).reqOp = .lwarx)
    (hv : rspValid cfg (r.state n) (r.input n) = true) : (r.state n).rsp.error = false ∧
      ∀ k < 8, (r.state n).reqBe.getLsbD k = true →
        lane k (rspData cfg (r.state n) (r.input n)) =
          memory r mem n (reqLine (r.state n)) (reqDw (r.state n)) k := by
  have hold : MemoryEnv r mem n :=
    ⟨h.undisturbed.mono n.le_succ, fun k hk => h.reads k (by omega)⟩
  have hrun : r.Obeys OutOfReset n := hold.undisturbed.imp (fun _ _ hi => hi.running)
  obtain ⟨hri, han, hm⟩ := memory_run hold
  obtain ⟨herr, hright⟩ := answer_right (coherentInv_run hrun) (responseInv_run hrun) hri
    (contentsInv_run hold) han hop hv
  refine ⟨herr, fun k hk hbe => ?_⟩
  -- a load waiting to be taken has changed nothing
  have hsame : answered (r.state n) (memory r mem n) = memory r mem n :=
    answered_of_reads (by rcases hop with hop | hop <;> simp [hop])
  have hagree := hm (reqLine (r.state n)) (reqDw (r.state n)) k hk
  rw [hsame, ite_self] at hagree
  exact (hright k hk hbe).trans hagree

end Run

/-! ## A fast store forwarded to a load -/

/-- Two ways of 64 sets with fast hits. -/
def configFast : Config := ⟨true, 6, 1⟩

/-- `dcbz` brings line 0 in; a store of one byte is answered in its lookup as a load
of the same double word is taken. -/
def forwardInputs : ℕ → Input
  | 0 => { hid0Dce := true, reqValid := true, reqOp := .dcbz }
  | 8 => { hid0Dce := true, reqValid := true, reqOp := .store, reqBe := 1, reqWdata := 7 }
  | 9 => { hid0Dce := true, rspReady := true, reqValid := true, reqOp := .load, reqBe := 3 }
  | _ => { hid0Dce := true, rspReady := true }

/-- The run of these inputs from reset. -/
def forwardRun : Run (machine configFast) where
  start := step configFast default { rstN := false }
  initial := initial_reset configFast
  input := forwardInputs

theorem loads_read_memory_forwardRun : (forwardRun.state 10).rsp.error = false ∧
    ∀ k < 8, (forwardRun.state 10).reqBe.getLsbD k = true →
      lane k (rspData configFast (forwardRun.state 10) (forwardRun.input 10)) =
        memory forwardRun (fun _ _ => 5) 10 (reqLine (forwardRun.state 10))
          (reqDw (forwardRun.state 10)) k := by
  refine loads_read_memory ⟨?_, ?_⟩ (by decide +kernel) (by decide +kernel)
  · intro k hk
    interval_cases k <;> constructor <;> decide
  · have hnone : ∀ n < 11, (forwardRun.input n).busRdValid = false := by decide
    intro n hn
    constructor <;> intro hv <;> simp [hnone n hn] at hv

/-- The load is answered on the fast path, with the byte from the forwarding registers. -/
example : lkFast configFast (forwardRun.state 10) (forwardRun.input 10) = true ∧
    (forwardRun.state 10).fwd = true ∧
    rspData configFast (forwardRun.state 10) (forwardRun.input 10) = 7 := by decide +kernel

end Dcache
end SloPPC603
