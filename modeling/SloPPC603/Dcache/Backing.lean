import SloPPC603.Dcache.Contents

/-!
# The memory behind the ways

A line that no way holds modified is up to date behind the cache: in the memory of
the bus, or in the castout buffer.  A line stops being modified only by going into
the buffer, and a write to a line that stays unmodified goes to the bus.

* `backed_step` — lines not modified stay up to date behind the cache.
* `contentsInv_step`, `contentsInv_run` — the whole invariant of the words.
-/

namespace SloPPC603
namespace Dcache

open Clocked

variable {cfg : Config} {s : State} {i : Input}

/-! ## Lookups -/

/-- What a lookup casts out is modified in its way. -/
theorem cob_holdsDirty (ha : ArrayInv cfg s) (hgo : lkGo cfg s i = true)
    (hcob : (lk cfg s i).cob = true) :
    (lk cfg s i).way < cfg.wayCount ∧ holdsDirty cfg s (lk cfg s i).way (lk cfg s i).cobLine := by
  obtain ⟨hst, hsnp, -⟩ := lkGo_spec hgo
  have hown := ha.owner.req hsnp (by simp [hst])
  have hdirty : ∀ w, s.drt w = true → validAt s (reqSet cfg s) w = true ∧
      s.stDirty (reqSet cfg s) w = true := by
    intro w hd
    rw [ha.lookup.drt, hown.1, dirtyAt, Bool.and_eq_true] at hd
    exact hd
  cases hinst : (lk cfg s i).plan.install with
  | true =>
    obtain ⟨-, hway, -, -, -, hcobd, hline⟩ := lk_install hinst
    rw [hcob] at hcobd
    obtain ⟨hv, hd⟩ := hdirty _ hcobd.symm
    have hset : cfg.setOf (cfg.lineAt (s.tag (victim cfg s)) (reqSet cfg s)) = reqSet cfg s :=
      setOf_lineAt (setOf_lt _)
    rw [hway, hline]
    refine ⟨victim_lt, ⟨?_, ?_⟩, ?_⟩
    · rw [hset]
      exact hv
    · have htag : cfg.tagOf (cfg.lineAt (s.tag (victim cfg s)) (reqSet cfg s)) =
          s.tag (victim cfg s) := tagOf_lineAt (setOf_lt _)
      rw [hset, htag, ha.lookup.tag, hown.1]
    · rw [hset]
      exact hd
  | false =>
    obtain ⟨hhit, hhd, hway, hline⟩ := (lk_hit hinst).1 hcob
    obtain ⟨hlt, hhw, hdrt, -⟩ := hitWay_lookup ha.lookup ha.owner ha.lines.unique hgo hhit
    rw [hway, hline]
    exact ⟨hlt, (hitw_iff ha.lookup hown.1 hown.2).1 hhw, (hdirty _ (hdrt ▸ hhd)).2⟩

/-- A lookup that plans to write a line in its way makes it modified. -/
theorem lookup_modified (hal : AloneInv s) (hu : Undisturbed i) (ha : ArrayInv cfg s)
    (hgo : lkGo cfg s i = true) (hinst : (lk cfg s i).plan.install = false)
    (h : (lk cfg s i).plan.zero = true ∨
      ((lk cfg s i).plan.store = true ∧ (lk cfg s i).plan.swrite = false)) :
    (lk cfg s i).way < cfg.wayCount ∧
      holdsDirty cfg (running cfg s i) (lk cfg s i).way (reqLine s) := by
  obtain ⟨hst, hsnp, -⟩ := lkGo_spec hgo
  have hown := ha.owner.req hsnp (by simp [hst])
  have hin : (lk cfg s i).plan.store = true ∨ (lk cfg s i).plan.zero = true :=
    h.elim Or.inr (fun h => Or.inl h.1)
  obtain ⟨hhit, hway, hvalid⟩ := (lk_hit hinst).2 hin
  obtain ⟨hlt, hhw, -⟩ := hitWay_lookup ha.lookup ha.owner ha.lines.unique hgo hhit
  have hheld := (hitw_iff ha.lookup hown.1 hown.2).1 hhw
  have hlk : (lk cfg s i).stWe = true ∧ (lk cfg s i).dirty (Dcache.hway cfg s) = true := by
    obtain ⟨heq, -⟩ := lk_not_install (hal.tea hu) hinst
    rw [heq] at h ⊢
    simp only [lkPlanCob] at h ⊢
    unfold lkOp at h ⊢
    cases hop : s.reqOp <;>
      simp only [lkLoad, lkStore, lkDcbz, lkDcbf, lkDcbst, lkDcbi, lkTouch, lkInhibited, hop] at h ⊢ <;>
      (try split_ifs at h ⊢) <;> simp_all [lkDefault, lkModify, setWay, Plan.none]
  rw [hway]
  refine ⟨hlt, ⟨?_, ?_⟩, ?_⟩
  · have hv : s.vld (Dcache.hway cfg s) = true := by
      rw [ha.lookup.vld, hown.1]
      exact hheld.1
    rw [validAt_running]
    simp [hu.flash, stWe, hsnp, hgo, hlk.1, stWaddr, reqSet, stWvalid, hvalid, hv]
  · rw [tagRam_running]
    simpa [installGo, hst] using hheld.2
  · rw [stDirty_running]
    simp [stWe, hsnp, hgo, hlk, stWaddr, reqSet, stWdirty]

/-! ## What a step keeps -/

theorem modified_step {v : ℕ → ℕ → BitVec 64} {t : Traffic} {b : Bus} (hu : Undisturbed i)
    (hal : AloneInv s) (ha : ArrayInv cfg s) (ho : OperationInv s) (hi : ContentsInv cfg s t b v)
    (hne : phaseOf (nextState cfg s i) ≠ none) (hinst : (nextPlan cfg s i).install = false)
    (h : (nextPlan cfg s i).zero = true ∨
      ((nextPlan cfg s i).store = true ∧ (nextPlan cfg s i).swrite = false)) :
    holdsDirty cfg (running cfg s i) (running cfg s i).way (reqLine (running cfg s i)) := by
  cases hp : phaseOf s.state with
  | none =>
    obtain ⟨q, hq⟩ := Option.ne_none_iff_exists'.1 hne
    obtain ⟨hst, hgo, -, -, hacc, -, hpl⟩ := enter_phase hp hq
    rw [hpl] at hinst h
    have hway : (running cfg s i).way = (lk cfg s i).way := by simp [running, hgo]
    rw [hway, reqLine_running hacc]
    exact (lookup_modified hal hu ha hgo hinst h).2
  | some p =>
    have hacc := @reqAccept_of_phase cfg s i _ hp
    have hgo := @lkGo_of_phase cfg s i _ hp
    have hway : (running cfg s i).way = s.way := by simp [running, hgo]
    have hold : s.plan.install = false ∧
        (s.plan.zero = true ∨ (s.plan.store = true ∧ s.plan.swrite = false)) := by
      rcases @phase_step cfg s i _ hp with ⟨hd, -⟩ | ⟨-, -, hn⟩ | ⟨-, -, -, -, hn⟩
      · rw [(next_of_done ha.control hp hd).2] at hinst h
        exact (left_kept _ _ (ho.left (by simp [hp]))).1 hinst h
      · rw [hn] at hinst h
        exact ⟨hinst, h⟩
      · simp [hn, phaseOf] at hne
    rw [hway, reqLine_running hacc]
    exact ((holds_still hu hal hgo (not_installGo_of_plan ha.control hold.1) _ _).2).2
      (hi.modified (by simp [hp]) hold.1 hold.2)

theorem absent_step {v : ℕ → ℕ → BitVec 64} {t : Traffic} {b : Bus} (hu : Undisturbed i)
    (hal : AloneInv s) (ha : ArrayInv cfg s) (ho : OperationInv s) (hi : ContentsInv cfg s t b v)
    (hne : phaseOf (nextState cfg s i) ≠ none)
    (h : (nextPlan cfg s i).sread = true ∨ ((nextPlan cfg s i).swrite = true ∧
      (nextPlan cfg s i).store = false ∧ nextState cfg s i ≠ .swriteReq)) :
    ∀ w < cfg.wayCount, ¬ holds cfg (running cfg s i) w (reqLine (running cfg s i)) := by
  intro w hw hh
  cases hp : phaseOf s.state with
  | none =>
    obtain ⟨q, hq⟩ := Option.ne_none_iff_exists'.1 hne
    obtain ⟨hst, hgo, -, -, hacc, -, hpl⟩ := enter_phase hp hq
    rw [hpl] at h
    rw [reqLine_running hacc] at hh
    exact lookup_absent hu hal ha hgo (h.imp id (fun h => ⟨h.1, h.2.1⟩)) w hw hh
  | some p =>
    have hacc := @reqAccept_of_phase cfg s i _ hp
    have hfirst := (ha.control p hp).2
    have hold : s.plan.sread = true ∨
        (s.plan.swrite = true ∧ s.plan.store = false ∧ s.state ≠ .swriteReq) := by
      rcases @phase_step cfg s i _ hp with ⟨hd, -⟩ | ⟨-, hn', hn⟩ | ⟨-, -, -, -, hn⟩
      · obtain ⟨hn, hpl⟩ := next_of_done ha.control hp hd
        rw [hpl, hn] at h
        rcases (left_kept _ _ (ho.left (by simp [hp]))).2 h with h | ⟨h1, h2, h3⟩
        · exact Or.inl h
        · refine Or.inr ⟨h1, h2, ?_⟩
          rintro hst
          rw [hst] at hp
          exact h3 (hfirst.trans (Option.some.inj hp).symm)
      · rw [hn] at h
        refine h.imp id (fun h => ⟨h.1, h.2.1, ?_⟩)
        rintro hst
        rw [hst] at hp
        rw [← hp] at hn'
        refine h.2.2 ?_
        cases hq : nextState cfg s i <;> simp [hq, phaseOf] at hn' ⊢
      · simp [hn, phaseOf] at hne
    have hno : installGo s = false := by
      cases hgo : installGo s with
      | false => rfl
      | true =>
        have hst := (installGo_spec hgo).1
        rw [hst] at hp
        have hfi := hfirst.trans (Option.some.inj hp).symm
        have hns := (left_brings _ _ (ho.left (by simp [hst, phaseOf]))
          (firstStep_eq_install hfi)).2
        unfold firstStep at hfi
        split_ifs at hfi
        simp_all
    rw [reqLine_running hacc] at hh
    rcases holds_running ha.lookup ha.owner hh with ⟨hh, -⟩ | ⟨hgo, -⟩
    · exact hi.absent (by simp [hp]) hold w hw hh
    · simp [hno] at hgo

/-! ## The bus -/

theorem lineOf_line {line : ℕ} (h : line < 2 ^ 27) :
    lineOf (BitVec.ofNat 32 (line * 32)) = line := by
  rw [lineOf, BitVec.toNat_ofNat]
  omega

/-- The address of a read or a single write is the request's double word. -/
theorem busReqAddr_request (h : s.state ≠ .cobReq ∧ s.state ≠ .addrReq) :
    lineOf (busReqAddr s) = reqLine s ∧ dwOf (busReqAddr s) = reqDw s := by
  have haddr : busReqAddr s = BitVec.ofNat 32 (s.reqAddr.toNat / 8 * 8) := by
    unfold busReqAddr
    cases hst : s.state <;> simp_all
  have hlt := s.reqAddr.isLt
  rw [haddr, lineOf, dwOf, reqLine, reqDw, lineOf, dwOf, BitVec.toNat_ofNat]
  constructor <;> omega

/-- The memory changes by a castout or a single write. -/
theorem mem_kept {b : Bus} (h : busAccept s i = true → s.state ≠ .cobReq ∧ s.state ≠ .swriteReq) :
    (b.update s i).mem = b.mem := by
  unfold Bus.update
  split_ifs with hacc
  · obtain ⟨h1, h2⟩ := h hacc
    unfold Bus.accept busReqKind
    cases hst : s.state <;> simp only [hst, ne_eq, not_true_eq_false] at h1 h2 ⊢
  · rfl
  · rfl

theorem castout_none {t : Traffic} (ht : TrafficInv s t) (h : phaseOf s.state ≠ some .cobRead) :
    t.castout = none := by
  cases hc : t.castout with
  | none => rfl
  | some c => exact absurd (ht.castout c hc).1 h

/-- A line a lookup takes from its way is in the castout buffer. -/
theorem backed_of_loss {v : ℕ → ℕ → BitVec 64} {t : Traffic} {b : Bus} (hu : Undisturbed i)
    (hal : AloneInv s) (ha : ArrayInv cfg s) (ht : TrafficInv s t) (hi : ContentsInv cfg s t b v)
    {w line : ℕ} (hw : w < cfg.wayCount) (hh : holdsDirty cfg s w line)
    (hloss : ¬ holdsDirty cfg (running cfg s i) w line) {d : ℕ} (hd : d < 4) :
    backing (t.update cfg s i) (b.update s i) line d = contentsNext cfg s i v line d := by
  have hcast : (t.update cfg s i).castout = some ⟨line, lineWords cfg s w line⟩ := by
    rcases dirty_loss (t := t) ha hh hloss with hc | hc | hc | ⟨hgo, hop, -⟩ | hc
    · exact hc
    · have hno : sPush cfg s i = false := by simp [sPush, snpHits, snpActs, hal.snoop]
      have hnone : t.push = none := by
        cases hp : t.push with
        | none => rfl
        | some c => exact absurd hal.push (ht.push c hp).1
      simp [Traffic.update, hno, hnone] at hc
    · simp [hal.snoop] at hc
    · exact absurd hop (hal.known (by simp [(lkGo_spec hgo).1])).1
    · simp [hu.flash] at hc
  -- it was put there by this lookup: a castout under way takes no line
  have hlk : lkGo cfg s i = true ∧ (lk cfg s i).cob = true := by
    by_contra hno
    rw [← Bool.and_eq_true, Bool.not_eq_true] at hno
    have hold := hcast
    simp only [Traffic.update, hno, Bool.false_eq_true, if_false] at hold
    split_ifs at hold
    have hp := (ht.castout _ hold).1
    have hinst : installGo s = false := by
      cases hgo : installGo s with
      | false => rfl
      | true => simp [(installGo_spec hgo).1, phaseOf] at hp
    exact hloss ((holds_still hu hal (lkGo_of_phase hp) hinst _ _).2.2 hh)
  obtain ⟨hst, -⟩ := lkGo_spec hlk.1
  have hx : ∀ d < 4, lineWords cfg s w line d = v line d := by
    have hx := hi.held w hw line hh.1
    split_ifs at hx with heq
    · rw [heq] at hx ⊢
      exact plain_of_inPlace hx (by simp [hst]) (by simp [hst]) (by simp [hst])
    · exact hx
  have hfast : lkFastSt cfg s i = false := by
    cases hf : lkFastSt cfg s i with
    | false => rfl
    | true =>
      have hcob := hlk.2
      rw [(lkFastSt_spec hf).2.2] at hcob
      simp [lkModify, lkDefault] at hcob
  have hval : contentsNext cfg s i v = v := by
    simp [contentsNext, stepAnswers, stepDone, hst, lkFastStDone, hfast]
  simp only [backing, hcast, if_true, hval]
  exact hx d hd

/-- A line written by its operation comes in modified. -/
theorem install_modified (hal : AloneInv s) (ha : ArrayInv cfg s) (ho : OperationInv s)
    (hgo : installGo s = true) (hw : Writes s.reqOp) :
    s.way < cfg.wayCount ∧ holdsDirty cfg (running cfg s i) s.way (reqLine s) := by
  have hst := (installGo_spec hgo).1
  have hp : phaseOf s.state = some .install := by rw [hst]; rfl
  have hplan := firstStep_eq_install (ha.control _ hp).2
  have hno := @lkGo_of_phase cfg s i _ hp
  have hdirty := ho.modified (by simp [hp]) hplan hw
  refine ⟨(ha.lines.install _ hp hplan).1, ⟨?_, ?_⟩, ?_⟩
  · rw [validAt_running]
    simp [flash, hst, stWe, hal.snoop, hno, hgo, stWaddr, reqSet, stWvalid, setWay]
  · rw [tagRam_running]
    simp [hgo, reqSet, reqTag]
  · rw [stDirty_running]
    simp [stWe, hal.snoop, hno, hgo, stWaddr, reqSet, stWdirty, setWay, hdirty]

theorem left_last : ∀ op, ∀ p ∈ leftPlans op, Writes op → firstStep p ≠ .idle →
    firstStep p.rest = .idle → (firstStep p = .zero ∧ p.install = false) ∨
      (firstStep p = .storeWrite ∧ p.install = false ∧ p.swrite = false) ∨
        firstStep p = .swriteReq ∨ firstStep p = .install := by
  intro op
  cases op <;> decide

/-- An edge that performs a write leaves its line modified, or writes it on the bus. -/
theorem performs_cases (hal : AloneInv s) {t : Traffic} {b : Bus} {v : ℕ → ℕ → BitVec 64}
    (ha : ArrayInv cfg s) (ho : OperationInv s) (hi : ContentsInv cfg s t b v)
    (hans : stepAnswers s i = true) (hw : Writes s.reqOp) :
    (s.state = .swriteReq ∧ busAccept s i = true) ∨
      ∃ w < cfg.wayCount, holdsDirty cfg s w (reqLine s) ∨
        holdsDirty cfg (running cfg s i) w (reqLine s) := by
  simp only [stepAnswers, Bool.and_eq_true, decide_eq_true_eq] at hans
  obtain ⟨⟨⟨hd, hidle⟩, -⟩, -⟩ := hans
  have hphase : phaseOf s.state ≠ none := by
    cases hst : s.state <;> simp [hst, phaseOf, stepDone] at hd ⊢
  obtain ⟨p, hp⟩ := Option.ne_none_iff_exists'.1 hphase
  have hfirst := (ha.control p hp).2
  have hrest : firstStep s.plan.rest = .idle := by
    rw [stateNext, planNext_of_stepDone hp hd, ← hfirst] at hidle
    exact hidle
  have hmod : s.plan.install = false →
      s.plan.zero = true ∨ (s.plan.store = true ∧ s.plan.swrite = false) →
      ∃ w < cfg.wayCount, holdsDirty cfg s w (reqLine s) ∨
        holdsDirty cfg (running cfg s i) w (reqLine s) := by
    intro hinst hz
    have hres := ha.lines.resident p hp (hz.elim Or.inr (fun h => Or.inl h.1)) hinst
    exact ⟨s.way, hres.1, Or.inl (hi.modified hphase hinst hz)⟩
  have hne : firstStep s.plan ≠ .idle := by
    rintro h
    rw [hfirst] at h
    subst h
    cases hst : s.state <;> simp [hst, phaseOf] at hp
  rcases left_last _ _ (ho.left hphase) hw hne hrest with ⟨h, hinst⟩ | ⟨h, hinst, hsw⟩ | h | h
  · exact Or.inr (hmod hinst (Or.inl (firstStep_eq_zero h)))
  · exact Or.inr (hmod hinst (Or.inr ⟨firstStep_eq_store h, hsw⟩))
  · left
    rw [hfirst] at h
    subst h
    cases hst : s.state <;> simp [hst, phaseOf] at hp
    simpa [stepDone, hst] using hd
  · right
    rw [hfirst] at h
    subst h
    cases hst : s.state <;> simp [hst, phaseOf] at hp
    have hgo : installGo s = true := by simpa [stepDone, hst] using hd
    obtain ⟨hlt, hdirty⟩ := install_modified (i := i) hal ha ho hgo hw
    exact ⟨s.way, hlt, Or.inr hdirty⟩

/-- **A line not modified is up to date behind the cache**, over an edge. -/
theorem backed_step {v : ℕ → ℕ → BitVec 64} {t : Traffic} {b : Bus} (hu : Undisturbed i)
    (hal : AloneInv s) (hcoh : CoherentInv cfg s t) (ho : OperationInv s)
    (hi : ContentsInv cfg s t b v) {line : ℕ}
    (hnd : ∀ w < cfg.wayCount, ¬ holdsDirty cfg (running cfg s i) w line) {d : ℕ} (hd : d < 4) :
    backing (t.update cfg s i) (b.update s i) line d = contentsNext cfg s i v line d := by
  have ha := hcoh.arrays
  by_cases hold : ∃ w < cfg.wayCount, holdsDirty cfg s w line
  · obtain ⟨w, hw, hh⟩ := hold
    exact backed_of_loss hu hal ha hcoh.traffic hi hw hh (hnd w hw) hd
  · push Not at hold
    have hb := hi.backed line hold d hd
    cases hgo : lkGo cfg s i with
    | true =>
      obtain ⟨hst, -⟩ := lkGo_spec hgo
      have hnone := (capture_free (i := i) hcoh).1 hgo
      have hmem : (b.update s i).mem = b.mem := mem_kept (by simp [hst])
      have hback : backing (t.update cfg s i) (b.update s i) line d = b.mem line d := by
        simp only [backing, Traffic.update, hgo, Bool.true_and, hmem, hnone, hst]
        cases hcob : (lk cfg s i).cob with
        | false => simp
        | true =>
          obtain ⟨hlt, hdirty⟩ := cob_holdsDirty ha hgo hcob
          have hne : line ≠ (lk cfg s i).cobLine := by
            rintro rfl
            exact hold _ hlt hdirty
          simp [hne]
      have hval : contentsNext cfg s i v line = v line := by
        cases hfast : lkFastSt cfg s i with
        | false => simp [contentsNext, stepAnswers, stepDone, hst, lkFastStDone, hfast]
        | true =>
          -- a fast store leaves its line modified
          apply contentsNext_of_ne
          rintro rfl
          obtain ⟨-, -, hlk⟩ := lkFastSt_spec hfast
          obtain ⟨hlt, hdirty⟩ := lookup_modified hal hu ha hgo
            (by rw [hlk]) (Or.inr (by rw [hlk]; exact ⟨rfl, rfl⟩))
          exact hnd _ hlt hdirty
      rw [hback, hval, ← hb]
      simp [backing, hnone]
    | false =>
      have hfast : lkFastStDone cfg s i = false := by
        cases hf : lkFastSt cfg s i with
        | false => simp [lkFastStDone, hf]
        | true => simp [(lkFastSt_spec hf).1] at hgo
      by_cases hcob : s.state = .cobReq ∧ busAccept s i = true
      · -- the castout goes to the bus
        obtain ⟨hst, hacc⟩ := hcob
        have hp : phaseOf s.state = some .cobRead := by rw [hst]; rfl
        have hvalid : busReqValid s = true := by
          simp only [busAccept, Bool.and_eq_true] at hacc
          exact hacc.1
        obtain ⟨c, hc, haddr, hdata⟩ := (bufferSpec_of hcoh).castout hst hvalid
        have hline := lineOf_line (hi.captured c hc)
        have hd' : stepDone s i = true := by simp [stepDone, hst, hacc]
        have hval : contentsNext cfg s i v = v := by
          have hn := (@next_of_done cfg s i _ ha.control hp hd').1
          by_cases hidle : firstStep s.plan.rest = .idle
          · exact contentsNext_of_reads ((left_clear _ _ (ho.left (by simp [hp]))
              (Or.inl (ha.control _ hp).2)).1 hidle)
          · exact contentsNext_of_next hfast (hn ▸ hidle)
        rw [hval, ← hb]
        have hmem : (b.update s i).mem line d =
            if line = c.line then c.data d else b.mem line d := by
          simp only [Bus.update, hacc, if_true, Bus.accept, busReqKind, hst, haddr, hline, hd, and_true]
          split_ifs
          · exact hdata d hd
          · rfl
        have hnone : (t.update cfg s i).castout = none := by
          simp [Traffic.update, hgo, wqPush, hacc, hst]
        simp only [backing, hnone, hc, hmem]
      · have hkeep : (t.update cfg s i).castout = t.castout := by
          have hno : (wqPush s i && decide (s.state = .cobReq)) = false := by
            rw [Bool.and_eq_false_imp]
            intro hpush
            simp only [wqPush, Bool.and_eq_true] at hpush
            exact decide_eq_false (fun hst => hcob ⟨hst, hpush.1⟩)
          simp [Traffic.update, hgo, hno]
        by_cases hsw : s.state = .swriteReq ∧ busAccept s i = true
        · -- the write goes to the bus
          obtain ⟨hst, hacc⟩ := hsw
          have hp : phaseOf s.state = some .swriteReq := by rw [hst]; rfl
          obtain ⟨hop, hrest⟩ := left_swrite _ _ (ho.left (by simp [hp])) (ha.control _ hp).2
          have hd' : stepDone s i = true := by simp [stepDone, hst, hacc]
          have hnone := castout_none hcoh.traffic (by rw [hp]; simp)
          have haddr := busReqAddr_request (s := s) (by simp [hst])
          simp only [backing, hnone] at hb
          rw [contentsNext_of_done ha.control ho hp hd' hrest]
          simp only [backing, hkeep, hnone, Bus.update, hacc, if_true, Bus.accept, busReqKind, hst, haddr,
            busReqBe, busReqData, performed, hop, true_and, hb]
          have hz : s.reqOp ≠ .dcbz := by rcases hop with hop | hop <;> simp [hop]
          simp [hz]
        · have hmem : (b.update s i).mem = b.mem :=
            mem_kept (fun hacc => ⟨fun hst => hcob ⟨hst, hacc⟩, fun hst => hsw ⟨hst, hacc⟩⟩)
          have hback : backing (t.update cfg s i) (b.update s i) line d = backing t b line d := by
            simp only [backing, hkeep, hmem]
          have hval : contentsNext cfg s i v line = v line := by
            by_cases hne : line = reqLine s
            · subst hne
              cases hans : stepAnswers s i with
              | false => simp [contentsNext, hans, hfast]
              | true =>
                by_cases hwr : Writes s.reqOp
                · rcases performs_cases hal ha ho hi hans hwr with h | ⟨w, hw, h | h⟩
                  · exact absurd h hsw
                  · exact absurd h (hold w hw)
                  · exact absurd h (hnd w hw)
                · rw [contentsNext_of_reads hwr]
            · exact contentsNext_of_ne hne
          rw [hback, hval, hb]

/-! ## Reads on the bus -/

theorem reqLine_lt : reqLine s < 2 ^ 27 := by
  have := s.reqAddr.isLt
  rw [reqLine, lineOf]
  omega

theorem captured_step {v : ℕ → ℕ → BitVec 64} {t : Traffic} {b : Bus} (ha : ArrayInv cfg s)
    (hi : ContentsInv cfg s t b v) {c : Capture} (h : (t.update cfg s i).castout = some c) :
    c.line < 2 ^ 27 := by
  simp only [Traffic.update] at h
  split_ifs at h with hlk hpush
  · rw [Bool.and_eq_true] at hlk
    obtain rfl := Option.some.inj h
    exact hi.bound _ _ (cob_holdsDirty ha hlk.1 hlk.2).2.1
  · exact hi.captured c h

/-- A wait for a read is entered by the bus taking the read. -/
theorem wait_from {q : DcState} (hq : q = .fillWait ∨ q = .sreadWait)
    (h : nextState cfg s i = q) :
    (s.state = q ∧ stepDone s i = false) ∨
      (busAccept s i = true ∧ stepDone s i = false ∧
        ((q = .fillWait ∧ s.state = .fillReq) ∨ (q = .sreadWait ∧ s.state = .sreadReq))) := by
  have hfirst : ∀ p, firstStep p ≠ q := by
    intro p
    unfold firstStep
    rcases hq with rfl | rfl <;> split_ifs <;> simp
  cases hd : stepDone s i with
  | true => exact absurd (by simpa [nextState, hd, stateNext] using h) (hfirst _)
  | false =>
    cases hst : s.state <;> simp only [nextState, hd, hst, Bool.false_eq_true, if_false] at h
    case idle => rcases hq with rfl | rfl <;> split_ifs at h
    case lookup =>
      unfold afterLookup at h
      rcases hq with rfl | rfl <;> split_ifs at h <;> exact absurd h (hfirst _)
    case fillReq | sreadReq =>
      split_ifs at h with hb
      · subst h
        simp [hb]
      · subst h
        simp at hq
    case fillWait =>
      split_ifs at h
      · subst h
        simp at hq
      · exact Or.inl ⟨h, rfl⟩
    case sreadWait => exact Or.inl ⟨h, rfl⟩
    all_goals
      (try split_ifs at h) <;> subst h <;> simp at hq

theorem busAccept_wait (h : s.state = .fillWait ∨ s.state = .sreadWait) :
    busAccept s i = false := by
  rcases h with h | h <;> simp [busAccept, busReqValid, h]

theorem burst_step {v : ℕ → ℕ → BitVec 64} {t : Traffic} {b : Bus} (hu : Undisturbed i)
    (ho : OperationInv s) (hi : ContentsInv cfg s t b v) (h : nextState cfg s i = .fillWait) :
    (b.update s i).burst = true ∧ lineOf (b.update s i).addr = reqLine (running cfg s i) ∧
      dwOf (b.update s i).addr = reqDw (running cfg s i) ∧
      (b.update s i).beat = (running cfg s i).stepIdx := by
  have hidx : (running cfg s i).stepIdx = nextStepIdx cfg s i := rfl
  have hreq : ∀ p, phaseOf s.state = some p → reqLine (running cfg s i) = reqLine s ∧
      reqDw (running cfg s i) = reqDw s := by
    intro p hp
    have hacc := @reqAccept_of_phase cfg s i _ hp
    exact ⟨reqLine_running hacc, by rw [reqDw, (request_running hacc).2.1, reqDw]⟩
  rcases wait_from (Or.inl rfl) h with ⟨hst, hd⟩ | ⟨hacc, hd, ⟨-, hst⟩ | ⟨hq, -⟩⟩
  · obtain ⟨hl, hdw⟩ := hreq .fillReq (by rw [hst]; rfl)
    obtain ⟨hburst, hline, hdwb, hbeat⟩ := hi.burst hst
    have hno := @busAccept_wait s i (Or.inl hst)
    rw [hl, hdw, hidx]
    cases hv : i.busRdValid with
    | false =>
      simp only [Bus.update, hno, hv, Bool.false_eq_true, if_false]
      exact ⟨hburst, hline, hdwb, by simp [nextStepIdx, hd, hst, fillBeat, hv, hbeat]⟩
    | true =>
      have hidx4 := ho.index
      have hb : fillBeat s i = true := by simp [fillBeat, hst, hv, hu.noRdError hv]
      have h3 : s.stepIdx ≠ 3 := by
        rintro h3
        simp [stepDone, hst, hb, h3] at hd
      simp only [Bus.update, hno, hv, Bool.false_eq_true, if_false, if_true]
      refine ⟨hburst, hline, hdwb, ?_⟩
      simp only [nextStepIdx, hd, hst, hb, Bool.false_eq_true, if_false, if_true]
      omega
  · obtain ⟨hl, hdw⟩ := hreq .fillReq (by rw [hst]; rfl)
    have haddr := busReqAddr_request (s := s) (by simp [hst])
    rw [hl, hdw, hidx]
    simp [Bus.update, hacc, Bus.accept, busReqKind, hst, haddr, nextStepIdx, hd]
  · simp at hq

theorem single_step {v : ℕ → ℕ → BitVec 64} {t : Traffic} {b : Bus}
    (hi : ContentsInv cfg s t b v) (h : nextState cfg s i = .sreadWait) :
    (b.update s i).burst = false ∧ lineOf (b.update s i).addr = reqLine (running cfg s i) ∧
      dwOf (b.update s i).addr = reqDw (running cfg s i) ∧
      (b.update s i).be = (running cfg s i).reqBe := by
  have hreq : ∀ p, phaseOf s.state = some p → reqLine (running cfg s i) = reqLine s ∧
      reqDw (running cfg s i) = reqDw s ∧ (running cfg s i).reqBe = s.reqBe := by
    intro p hp
    have hacc := @reqAccept_of_phase cfg s i _ hp
    obtain ⟨-, haddr, hbe, -⟩ := @request_running cfg s i hacc
    exact ⟨reqLine_running hacc, by rw [reqDw, haddr, reqDw], hbe⟩
  rcases wait_from (Or.inr rfl) h with ⟨hst, hd⟩ | ⟨hacc, hd, ⟨hq, -⟩ | ⟨-, hst⟩⟩
  · obtain ⟨hl, hdw, hbe⟩ := hreq .sreadReq (by rw [hst]; rfl)
    have hv : i.busRdValid = false := by simpa [stepDone, hst] using hd
    rw [hl, hdw, hbe]
    simp only [Bus.update, @busAccept_wait s i (Or.inr hst), hv, Bool.false_eq_true, if_false]
    exact hi.single hst
  · simp at hq
  · obtain ⟨hl, hdw, hbe⟩ := hreq .sreadReq (by rw [hst]; rfl)
    have haddr := busReqAddr_request (s := s) (by simp [hst])
    rw [hl, hdw, hbe]
    simp [Bus.update, hacc, Bus.accept, busReqKind, hst, haddr, busReqBe]

/-! ## Every reachable state -/

/-- **The words stay where they should be.** -/
theorem contentsInv_step {v : ℕ → ℕ → BitVec 64} {t : Traffic} {b : Bus} (hu : Undisturbed i)
    (hr : BusReads b i) (hal : AloneInv s) (hcoh : CoherentInv cfg s t) (ho : OperationInv s)
    (hi : ContentsInv cfg s t b v) :
    ContentsInv cfg (running cfg s i) (t.update cfg s i) (b.update s i)
      (contentsNext cfg s i v) where
  held _ hw _ hh := held_step hu hal hcoh.arrays ho hi hw hh
  backed _ hnd _ hd := backed_step hu hal hcoh ho hi hnd hd
  comingIn hne hinst := comingIn_step hu hr hcoh.arrays hcoh.traffic ho hi hne hinst
  absent hne h := absent_step hu hal hcoh.arrays ho hi hne h
  modified hne hinst h := modified_step hu hal hcoh.arrays ho hi hne hinst h
  bound w line hh := by
    rcases holds_running hcoh.arrays.lookup hcoh.arrays.owner hh with ⟨hh, -⟩ | ⟨-, -, rfl⟩
    · exact hi.bound w line hh
    · exact reqLine_lt
  captured _ hc := captured_step hcoh.arrays hi hc
  burst h := burst_step hu ho hi h
  single h := single_step hi h

theorem contentsInv_initial (h : (machine cfg).Initial s) (mem : ℕ → ℕ → BitVec 64) (b : Bus)
    (hb : b.mem = mem) : ContentsInv cfg s Traffic.start b mem := by
  obtain ⟨hst, -⟩ := state_initial h
  have hnone : ∀ w line, ¬ holds cfg s w line := by
    intro w line hh
    simpa [validAt_initial h] using hh.1
  refine ⟨?_, ?_, ?_, ?_, ?_, ?_, nofun, ?_, ?_⟩
  · intro w _ line hh
    exact absurd hh (hnone w line)
  · intro line _ d _
    simp [backing, Traffic.start, hb]
  · simp [hst, phaseOf]
  · simp [hst, phaseOf]
  · simp [hst, phaseOf]
  · intro w line hh
    exact absurd hh (hnone w line)
  · simp [hst]
  · simp [hst]

section Run

variable (r : Run (machine cfg)) (mem : ℕ → ℕ → BitVec 64)

/-- The bus of a run over a memory. -/
def bus (n : ℕ) : Bus :=
  r.history ⟨mem, false, 0, 0, 0⟩ (fun b s i => b.update s i) n

/-- The memory as the operations of a run have left it. -/
def contents (n : ℕ) : ℕ → ℕ → BitVec 64 :=
  r.history mem (fun v s i => contentsNext cfg s i v) n

/-- The cache alone on a bus that performs its requests in order. -/
structure MemoryEnv (N : ℕ) : Prop where
  undisturbed : r.Obeys (fun _ i => Undisturbed i) N
  reads : ∀ n < N, BusReads (bus r mem n) (r.input n)

variable {r mem}

theorem contentsInv_run {n : ℕ} (h : MemoryEnv r mem n) :
    ContentsInv cfg (r.state n) (traffic r n) (bus r mem n) (contents r mem n) := by
  induction n with
  | zero => exact contentsInv_initial r.initial mem _ rfl
  | succ n ih =>
    have hold : MemoryEnv r mem n :=
      ⟨h.undisturbed.mono n.le_succ, fun k hk => h.reads k (by omega)⟩
    have hu : Undisturbed (r.input n) := h.undisturbed n n.lt_succ_self
    obtain ⟨hal, ho⟩ := undisturbed_run hold.undisturbed
    have hcoh := coherentInv_run (hold.undisturbed.imp (fun _ _ hi => hi.running) : r.Obeys OutOfReset n)
    have hstep := contentsInv_step hu (h.reads n n.lt_succ_self) hal hcoh ho (ih hold)
    have hn : r.state (n + 1) = running cfg (r.state n) (r.input n) := step_running hu.running
    rw [hn]
    exact hstep

end Run

end Dcache
end SloPPC603
