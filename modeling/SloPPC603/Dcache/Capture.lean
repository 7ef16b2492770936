import SloPPC603.Clocked.BurstRead
import SloPPC603.Dcache.Structure

/-!
# Castouts and pushes

A modified line leaves its way through one of two buffers: a lookup casts it out,
or a snoop pushes it.  `Traffic` is a record of both kept beside a run, with the
words the line held when it left and the writes the bus has accepted and not
completed.  The invariants say the registers agree with it: the castout flag and
the push engine cover the line until its write completes, and what each buffer
offers the bus is the whole line as it was when it left.

* `TrafficInv`, `trafficInv_step` — lines under way.
* `CaptureInv`, `captureInv_step` — the words in the two buffers.
-/

namespace SloPPC603
namespace Dcache

open Clocked

variable {cfg : Config} {s : State} {i : Input}

/-! ## The record -/

/-- A line on its way out and its words when it left its way. -/
structure Capture where
  line : ℕ
  data : ℕ → BitVec 64

/-- The lines on their way out. -/
structure Traffic where
  /-- The line being cast out, until the bus accepts its write. -/
  castout : Option Capture
  /-- The accepted writes and address-only requests not completed, oldest first,
  with the castouts among them. -/
  posted : List (Option Capture)
  /-- The line being pushed, until its write completes. -/
  push : Option Capture

/-- Nothing is on its way out. -/
def Traffic.start : Traffic := ⟨none, [], none⟩

/-- The words of a way at a line's set. -/
def lineWords (cfg : Config) (s : State) (w line : ℕ) : ℕ → BitVec 64 :=
  s.dataRam w (cfg.setOf line)

/-- The record after an edge. -/
def Traffic.update (cfg : Config) (t : Traffic) (s : State) (i : Input) : Traffic where
  castout :=
    if lkGo cfg s i && (lk cfg s i).cob then
      some ⟨(lk cfg s i).cobLine, lineWords cfg s (lk cfg s i).way (lk cfg s i).cobLine⟩
    else if wqPush s i && s.state = .cobReq then none
    else t.castout
  posted :=
    (if i.busWrDone then t.posted.tail else t.posted) ++
      (if wqPush s i then [if s.state = .cobReq then t.castout else none] else [])
  push :=
    if sPush cfg s i then some ⟨snpLine s, lineWords cfg s (hway cfg s) (snpLine s)⟩
    else if s.pushSt = .wait && i.pushDone then none
    else t.push

/-- The line is being cast out or pushed, and its write has not completed. -/
def Traffic.underWay (t : Traffic) (line : ℕ) : Prop :=
  ∃ c : Capture, c.line = line ∧ (t.castout = some c ∨ some c ∈ t.posted ∨ t.push = some c)

/-! ## Lines under way -/

/-- The registers cover every line under way. -/
structure TrafficInv (s : State) (t : Traffic) : Prop where
  castout : ∀ c, t.castout = some c → phaseOf s.state = some .cobRead ∧ c.line = s.cobLine
  casting : phaseOf s.state = some .cobRead → t.castout ≠ none
  flags : t.posted.map Option.isSome = (List.range s.wqCount).map s.wqCob
  posted : ∀ c, some c ∈ t.posted → c.line = s.cobLine
  push : ∀ c, t.push = some c → s.pushSt ≠ .idle ∧ c.line = s.pushLine
  pushing : s.pushSt ≠ .idle → t.push ≠ none

theorem posted_covered {t : Traffic} (hk : CastoutInv s) (ht : TrafficInv s t) {c : Capture}
    (h : some c ∈ t.posted) : s.cobValid = true ∧ phaseOf s.state ≠ some .cobRead := by
  have hflag : true ∈ (List.range s.wqCount).map s.wqCob := by
    rw [← ht.flags]
    exact List.mem_map.2 ⟨_, h, rfl⟩
  obtain ⟨k, hk', hcob⟩ := List.mem_map.1 hflag
  exact hk.posted k (List.mem_range.1 hk') hcob

/-- **A line under way is one the snoop logic protects.** -/
theorem conflict_of_underWay {t : Traffic} (hk : CastoutInv s) (ht : TrafficInv s t)
    (h : t.underWay (snpLine s)) : snpConflict s i = true := by
  obtain ⟨c, hline, hc | hc | hc⟩ := h
  · obtain ⟨hphase, hcl⟩ := ht.castout c hc
    simp [snpConflict, hk.flag hphase, ← hcl, hline]
  · simp [snpConflict, (posted_covered hk ht hc).1, ← ht.posted c hc, hline]
  · obtain ⟨hst, hpl⟩ := ht.push c hc
    simp [snpConflict, pushBusy, hst, ← hpl, hline]

/-- A snoop that pushes finds the push engine idle. -/
theorem sPush_spec (h : sPush cfg s i = true) : s.pushSt = .idle ∧ s.state ≠ .cobRead ∧
    snpConflict s i = false ∧ hit cfg s = true ∧ hdirty cfg s = true ∧ s.snpValid = true ∧
    s.snpProbe = false := by
  simp only [sPush, snpHits, snpActs, canPush, pushBusy, Bool.and_eq_true, Bool.not_eq_true',
    decide_eq_true_eq, decide_eq_false_iff_not, ne_eq, not_not] at h
  tauto

/-- The posted writes after a completion. -/
theorem flags_popped {t : Traffic} (ht : TrafficInv s t) :
    (if i.busWrDone then t.posted.tail else t.posted).map Option.isSome =
      (List.range (s.wqCount - (wqPop s i).toNat)).map
        (fun k => s.wqCob (k + (wqPop s i).toNat)) := by
  cases hd : i.busWrDone with
  | false =>
    have hpop : wqPop s i = false := by simp [wqPop, hd]
    simpa [hpop] using ht.flags
  | true =>
    rw [if_pos rfl, List.map_tail, ht.flags]
    cases hn : s.wqCount with
    | zero => simp
    | succ n =>
      have hpop : wqPop s i = true := by simp [wqPop, hd, hn]
      simp [hpop, List.range_succ_eq_map]

/-- The posted writes after an edge, as the write queue keeps them. -/
theorem flags_running {t : Traffic} (hle : s.wqCount ≤ 4) (ht : TrafficInv s t) :
    ((t.update cfg s i).posted).map Option.isSome =
      (List.range (wqCountNext s i)).map (wqCobNext s i) := by
  have hold : (List.range (s.wqCount - (wqPop s i).toNat)).map
      (fun k => s.wqCob (k + (wqPop s i).toNat)) =
        (List.range (s.wqCount - (wqPop s i).toNat)).map (wqCobNext s i) := by
    apply List.map_congr_left
    intro k hk
    have hk := List.mem_range.1 hk
    have hne : ¬ (wqPush s i = true ∧ k = wqCountPopped s i % 4) := by
      rintro ⟨hp, heq⟩
      have hfull := (wqPush_spec hp).1
      rw [wqCountPopped_eq hle] at heq
      omega
    rw [wqCobNext, if_neg hne]
    cases hp : wqPop s i with
    | true =>
      rw [hp, Bool.toNat_true] at hk
      simp [show k + 1 < 4 by omega]
    | false => simp
  rw [Traffic.update, List.map_append, flags_popped ht, wqCountNext_eq hle, hold]
  cases hp : wqPush s i with
  | false => simp
  | true =>
    have hfull := (wqPush_spec hp).1
    have hidx : wqCountPopped s i % 4 = s.wqCount - (wqPop s i).toNat := by
      rw [wqCountPopped_eq hle]
      omega
    have hnew : wqCobNext s i (s.wqCount - (wqPop s i).toNat) = wqPushCob s := by
      rw [wqCobNext, if_pos ⟨hp, hidx.symm⟩]
    have hcob : (if s.state = .cobReq then t.castout else none).isSome = wqPushCob s := by
      by_cases hst : s.state = .cobReq
      · have hphase : phaseOf s.state = some .cobRead := by rw [hst]; rfl
        cases hc : t.castout with
        | none => exact absurd hc (ht.casting hphase)
        | some c => simp [hst, wqPushCob]
      · simp [hst, wqPushCob]
    rw [Bool.toNat_true, List.range_succ, List.map_append]
    simp [hnew, hcob]

/-- **The record stays covered by the registers.** -/
theorem trafficInv_step {t : Traffic} (hc : ControlInv s) (hk : CastoutInv s)
    (ht : TrafficInv s t) : TrafficInv (running cfg s i) (t.update cfg s i) := by
  have hreq : s.state = .cobReq → phaseOf s.state = some .cobRead := by
    intro h
    rw [h]
    rfl
  have hline : (running cfg s i).cobLine =
      if lkGo cfg s i && (lk cfg s i).cob then (lk cfg s i).cobLine else s.cobLine := rfl
  have hpst : (running cfg s i).pushSt = nextPushSt cfg s i := rfl
  have hpline : (running cfg s i).pushLine = if sPush cfg s i then snpLine s else s.pushLine := rfl
  refine ⟨?_, ?_, flags_running hk.count_le ht, ?_, ?_, ?_⟩
  · intro c hcast
    rw [hline]
    simp only [Traffic.update] at hcast
    split_ifs at hcast ⊢ with hlk hpush
    · rw [Bool.and_eq_true] at hlk
      obtain rfl := Option.some.inj hcast
      refine ⟨?_, rfl⟩
      show phaseOf (nextState cfg s i) = _
      rw [nextState_of_cob hlk.1 hlk.2]
      rfl
    · obtain ⟨hphase, hcl⟩ := ht.castout c hcast
      refine ⟨?_, hcl⟩
      rcases @phase_step cfg s i _ hphase with ⟨hd, -⟩ | ⟨-, hn, -⟩ | ⟨-, hs, -⟩
      · cases hs : s.state <;> simp [hs, phaseOf] at hphase <;> simp [stepDone, hs] at hd
        simp [wqPush, hs, hd] at hpush
      · exact hn
      · simp [hs, phaseOf] at hphase
  · intro hphase
    simp only [Traffic.update]
    rcases cob_phase_running hc hphase with ⟨hgo, hcob⟩ | ⟨hphase, hgo, hpush⟩
    · simp [hgo, hcob]
    · simpa [hgo, hpush] using ht.casting hphase
  · intro c hmem
    rw [hline]
    have hold : some c ∈ t.posted ∨ (t.castout = some c ∧ s.state = .cobReq) := by
      rw [Traffic.update, List.mem_append] at hmem
      rcases hmem with hmem | hmem
      · split_ifs at hmem
        · exact Or.inl (List.mem_of_mem_tail hmem)
        · exact Or.inl hmem
      · split_ifs at hmem with hpush hst
        · exact Or.inr ⟨(List.mem_singleton.1 hmem).symm, hst⟩
        · simp at hmem
        · simp at hmem
    rcases hold with hold | ⟨hcast, hst⟩
    · have hflag := (posted_covered hk ht hold).1
      rw [if_neg, ht.posted c hold]
      rw [Bool.and_eq_true]
      rintro ⟨hgo, hcob⟩
      obtain ⟨-, -, -, hfree, -⟩ := lkGo_spec hgo
      simp [hfree hcob] at hflag
    · have hgo := @lkGo_of_phase cfg s i _ (hreq hst)
      simp [hgo, (ht.castout c hcast).2]
  · intro c hpush
    rw [hpst, hpline]
    simp only [Traffic.update] at hpush
    split_ifs at hpush ⊢ with hs hdone
    · obtain rfl := Option.some.inj hpush
      refine ⟨?_, rfl⟩
      simp [nextPushSt, (sPush_spec hs).1, hs]
    · obtain ⟨hne, hl⟩ := ht.push c hpush
      refine ⟨?_, hl⟩
      unfold nextPushSt
      cases hst : s.pushSt <;> simp only [hst, ne_eq, not_true_eq_false] at hne ⊢
      · split_ifs <;> simp
      · split_ifs <;> simp
      · simp only [hst, decide_true, Bool.true_and] at hdone
        simp [hdone]
  · intro hne
    rw [hpst] at hne
    simp only [Traffic.update]
    cases hs : sPush cfg s i with
    | true => simp
    | false =>
      have hbusy : s.pushSt ≠ .idle := by
        intro hidle
        simp [nextPushSt, hidle, hs] at hne
      have hdone : (decide (s.pushSt = .wait) && i.pushDone) = false := by
        by_contra hd
        simp only [Bool.not_eq_false, Bool.and_eq_true, decide_eq_true_eq] at hd
        simp [nextPushSt, hd.1, hd.2] at hne
      simpa [hdone] using ht.pushing hbusy

/-! ## Writes to the data array -/

/-- An operation has words of its way still to write. -/
def Writing (p : Plan) : Prop := p.fill = true ∨ p.zero = true ∨ p.store = true

theorem writing_of_clear {p : Plan} {q : DcState} (h : Writing (p.clear q)) : Writing p := by
  unfold Writing at *
  cases q <;> simp only [Plan.clear, Bool.false_eq_true, false_or, or_false] at h <;> tauto

/-- The data array is written by an operation in its own way and set, or by a fast
store in the way it hits. -/
theorem dataWayWe_spec (hc : ControlInv s) {w : ℕ} (h : dataWayWe cfg s i w = true) :
    (w = s.way ∧ Writing s.plan ∧ ∃ p, phaseOf s.state = some p) ∨
      (lkFastSt cfg s i = true ∧ s.hitw w = true) := by
  unfold dataWayWe at h
  split_ifs at h with hw hf
  · rw [decide_eq_true_eq] at h
    refine Or.inl ⟨h, ?_⟩
    have hst : s.state = .fillWait ∨ s.state = .zero ∨ s.state = .storeWrite := by
      simp only [fillBeat, Bool.or_eq_true, Bool.and_eq_true, decide_eq_true_eq] at hw
      tauto
    rcases hst with hst | hst | hst
    · have hphase : phaseOf s.state = some .fillReq := by rw [hst]; rfl
      exact ⟨Or.inl (firstStep_eq_fill (hc _ hphase).2), _, hphase⟩
    · have hphase : phaseOf s.state = some .zero := by rw [hst]; rfl
      exact ⟨Or.inr (Or.inl (firstStep_eq_zero (hc _ hphase).2)), _, hphase⟩
    · have hphase : phaseOf s.state = some .storeWrite := by rw [hst]; rfl
      exact ⟨Or.inr (Or.inr (firstStep_eq_store (hc _ hphase).2)), _, hphase⟩
  · exact Or.inr ⟨hf, h⟩

theorem dataRam_kept {w set dw : ℕ} (h : ¬ (dataWayWe cfg s i w = true ∧ set = reqSet cfg s)) :
    (running cfg s i).dataRam w set dw = s.dataRam w set dw := by
  show nextDataRam cfg s i w set dw = _
  rw [nextDataRam, if_neg]
  rintro ⟨hw, hset, -⟩
  exact h ⟨hw, hset⟩

/-- A line a snoop pushes is not one the operation in progress is writing. -/
theorem push_apart (ha : ArrayInv cfg s) (h : sPush cfg s i = true) {p : DcState}
    (hp : phaseOf s.state = some p) (hw : Writing s.plan) :
    ¬ (s.way = hway cfg s ∧ reqSet cfg s = cfg.setOf (snpLine s)) := by
  rintro ⟨hway, hset⟩
  obtain ⟨-, -, hconf, hhit, -, hsnp, -⟩ := sPush_spec h
  have hown := ha.owner.snoop hsnp
  obtain ⟨-, hhw, -⟩ := hitWay_snoop ha.lookup ha.owner ha.lines.unique hsnp hhit
  have hheld := (hitw_iff ha.lookup hown.1 hown.2).1 hhw
  cases hinst : s.plan.install with
  | true =>
    have hinv := (ha.lines.install p hp hinst).2.1
    rw [hway, hset, hheld.1] at hinv
    cases hinv
  | false =>
    have hin : s.plan.store = true ∨ s.plan.zero = true := by
      rcases hw with hf | hz | hst
      · rw [(planned_fill (ha.control p hp).1 hf).1] at hinst
        cases hinst
      · exact Or.inr hz
      · exact Or.inl hst
    have hres := (ha.lines.resident p hp hin hinst).2.1
    have hsame : snpLine s = reqLine s := by
      refine (@line_eq_iff cfg _ _).2 ⟨hset.symm, ?_⟩
      have htag := hres.2
      rw [hway, show cfg.setOf (reqLine s) = cfg.setOf (snpLine s) from hset] at htag
      rw [← htag, hheld.2]
    have hconf' := @conflict_of_resident cfg s i ha.control ha.castout ha.lines _ hp hin hinst hsame
    rw [hconf] at hconf'
    cases hconf'

/-! ## The words in the buffers -/

/-- Each buffer holds, or is still reading, the words its line left with, and
nothing is writing them meanwhile. -/
structure CaptureInv (cfg : Config) (s : State) (t : Traffic) : Prop where
  clear : s.state = .cobRead → s.pushSt ≠ .read
  apart : s.pushSt = .read → ∀ p, phaseOf s.state = some p → Writing s.plan →
    ¬ (s.way = s.pushWay ∧ reqSet cfg s = cfg.setOf s.pushLine)
  castout : ∀ c, t.castout = some c → cfg.setOf c.line = reqSet cfg s ∧
    BurstRead 4 c.data (s.state = .cobRead) s.stepIdx s.cobCap s.cobCapIdx
      (s.dataRdata s.cobWay) (lineWords cfg s s.cobWay c.line) s.cobData
  push : ∀ c, t.push = some c →
    BurstRead 4 c.data (s.pushSt = .read) s.pushIdx s.pushCap s.pushCapIdx
      (s.dataRdata s.pushWay) (lineWords cfg s s.pushWay c.line) s.pushData

theorem nextPushSt_eq_read : nextPushSt cfg s i = .read ↔
    (sPush cfg s i = true ∧ s.pushSt = .idle) ∨ (s.pushSt = .read ∧ s.pushIdx ≠ 3) := by
  unfold nextPushSt
  cases s.pushSt <;> simp only <;> split_ifs <;> simp_all

theorem cobRead_of_next (hp : phaseOf s.state = some .cobRead)
    (h : nextState cfg s i = .cobRead) : s.state = .cobRead := by
  cases hs : s.state <;> simp only [hs, phaseOf, Option.some.injEq, reduceCtorEq] at hp ⊢
  cases hd : stepDone s i <;> simp [nextState, hd, hs] at h
  have hplan : (planNext s).cob = true := firstStep_eq_cob.1 h
  simp [planNext, hs] at hplan

/-- An edge that leaves the push engine reading writes none of the words it
reads. -/
theorem pushWords_kept (ha : ArrayInv cfg s) {t : Traffic} (hk : CaptureInv cfg s t)
    {w line : ℕ} (hw : (sPush cfg s i = true ∧ w = hway cfg s ∧ line = snpLine s) ∨
      (s.pushSt = .read ∧ w = s.pushWay ∧ line = s.pushLine)) (d : ℕ) :
    (running cfg s i).dataRam w (cfg.setOf line) d = s.dataRam w (cfg.setOf line) d := by
  apply dataRam_kept
  rintro ⟨hwe, hset⟩
  rcases dataWayWe_spec ha.control hwe with ⟨hway, hwr, p, hp⟩ | ⟨hfast, -⟩
  · rcases hw with ⟨hs, rfl, rfl⟩ | ⟨hs, rfl, rfl⟩
    · exact push_apart ha hs hp hwr ⟨hway.symm, hset.symm⟩
    · exact hk.apart hs p hp hwr ⟨hway.symm, hset.symm⟩
  · simp only [lkFastSt, Bool.and_eq_true, decide_eq_true_eq, Bool.not_eq_true'] at hfast
    rcases hw with ⟨hs, -⟩ | ⟨hs, -⟩
    · simp [(sPush_spec hs).2.2.2.2.2.1] at hfast
    · simp [hs] at hfast

/-- A lookup that casts out, or a castout, writes no data. -/
theorem castoutWords_kept (h : (lkGo cfg s i = true ∧ (lk cfg s i).cob = true) ∨
    phaseOf s.state = some .cobRead) (w set d : ℕ) :
    (running cfg s i).dataRam w set d = s.dataRam w set d := by
  apply dataRam_kept
  rintro ⟨hwe, -⟩
  have hst : s.state = .lookup ∨ s.state = .cobRead ∨ s.state = .cobReq := by
    rcases h with h | h
    · exact Or.inl (lkGo_spec h.1).1
    · cases hs : s.state <;> simp [hs, phaseOf] at h ⊢
  have hfast : lkFastSt cfg s i = false := by
    cases hf : lkFastSt cfg s i with
    | false => rfl
    | true =>
      have hspec := lkFastSt_spec hf
      rcases h with h | h
      · rw [hspec.2.2] at h
        simp [lkModify, lkDefault] at h
      · simp [lkGo_of_phase h] at hspec
  rcases hst with hst | hst | hst <;> simp [dataWayWe, fillBeat, hst, hfast] at hwe

theorem not_reqAccept_of_cob (hgo : lkGo cfg s i = true) (h : (lk cfg s i).cob = true) :
    reqAccept cfg s i = false := by
  cases hr : reqReady cfg s i with
  | false => exact not_reqAccept_of_not_ready hr
  | true =>
    have hn := nextState_of_reqReady hr
    rw [nextState_of_cob hgo h] at hn
    split_ifs at hn

/-- A castout's line is of the request's set. -/
theorem setOf_cobLine (h : (lk cfg s i).cob = true) :
    cfg.setOf (lk cfg s i).cobLine = reqSet cfg s := by
  cases hinst : (lk cfg s i).plan.install with
  | true =>
    rw [(lk_install hinst).2.2.2.2.2.2]
    exact setOf_lineAt (setOf_lt _)
  | false => rw [((lk_hit hinst).1 h).2.2.2, reqSet]

theorem castoutRead_step {t : Traffic} (ht : TrafficInv s t)
    (hk : CaptureInv cfg s t) {c : Capture} (h : (t.update cfg s i).castout = some c) :
    cfg.setOf c.line = reqSet cfg (running cfg s i) ∧
      BurstRead 4 c.data ((running cfg s i).state = .cobRead) (running cfg s i).stepIdx
        (running cfg s i).cobCap (running cfg s i).cobCapIdx
        ((running cfg s i).dataRdata (running cfg s i).cobWay)
        (lineWords cfg (running cfg s i) (running cfg s i).cobWay c.line)
        (running cfg s i).cobData := by
  have hcast := h
  simp only [Traffic.update] at h
  split_ifs at h with hlk hpush
  · -- the lookup: the four words are in the array
    rw [Bool.and_eq_true] at hlk
    obtain ⟨hgo, hcob⟩ := hlk
    obtain rfl := Option.some.inj h
    have hst := (lkGo_spec hgo).1
    refine ⟨by rw [reqSet_running (not_reqAccept_of_cob hgo hcob)]; exact setOf_cobLine hcob, ?_⟩
    have hstate : (running cfg s i).state = .cobRead := nextState_of_cob hgo hcob
    have hidx : (running cfg s i).stepIdx = 0 := by
      show nextStepIdx cfg s i = 0
      simp [nextStepIdx, stepDone, hst, hgo]
    have hcap : (running cfg s i).cobCap = false := by
      show decide (s.state = .cobRead) = false
      simp [hst]
    have hway : (running cfg s i).cobWay = (lk cfg s i).way := by simp [running, hgo, hcob]
    rw [hstate, hidx, hcap, hway, decide_eq_true rfl]
    refine BurstRead.start (by decide) (fun d _ => ?_)
    exact castoutWords_kept (Or.inl ⟨hgo, hcob⟩) _ _ _
  · -- the castout goes on
    obtain ⟨hset, hread⟩ := hk.castout c h
    have hphase := (ht.castout c h).1
    have hgo := @lkGo_of_phase cfg s i _ hphase
    have hacc := @reqAccept_of_phase cfg s i _ hphase
    have hway : (running cfg s i).cobWay = s.cobWay := by simp [running, hgo]
    refine ⟨by rw [reqSet_running hacc]; exact hset, ?_⟩
    rw [hway]
    cases hs : s.state <;> simp only [hs, phaseOf, Option.some.injEq, reduceCtorEq] at hphase
    · -- reading
      have hcap : (running cfg s i).cobCap = true := by
        show decide (s.state = .cobRead) = true
        simp [hs]
      have hnext : (running cfg s i).state = if s.stepIdx = 3 then .cobReq else .cobRead := by
        show nextState cfg s i = _
        simp [nextState, stepDone, hs]
      have hidx : (running cfg s i).stepIdx = (s.stepIdx + 1) % 4 := by
        show nextStepIdx cfg s i = _
        simp [nextStepIdx, stepDone, hs]
      have hdata : (running cfg s i).dataRdata s.cobWay =
          lineWords cfg s s.cobWay c.line s.stepIdx := by
        show s.dataRam s.cobWay (dataRaddr cfg s i).1 (dataRaddr cfg s i).2 = _
        simp [dataRaddr, hs, hk.clear hs, lineWords, hset]
      have hlt := hread.idx_lt (by simp [hs])
      rw [hs, decide_eq_true rfl] at hread
      rw [hcap, hdata, hidx, hnext]
      refine hread.advance ?_ ?_ (fun d _ => castoutWords_kept (Or.inr (by rw [hs]; rfl)) _ _ _)
      · intro hr
        split_ifs at hr with h3
        · simp at hr
        · omega
      · intro hr
        split_ifs at hr with h3
        · omega
        · simp at hr
    · -- waiting for the bus
      have hstate : (running cfg s i).state = .cobReq := by
        show nextState cfg s i = _
        have hd : stepDone s i = false := by
          cases hb : busAccept s i with
          | false => simp [stepDone, hs, hb]
          | true => simp [wqPush, hs, hb] at hpush
        simp [nextState, hd, hs]
      have hcap : (running cfg s i).cobCap = false := by
        show decide (s.state = .cobRead) = false
        simp [hs]
      rw [hs, decide_eq_false (by simp)] at hread
      rw [hstate, hcap, decide_eq_false (by simp)]
      exact hread.drain

theorem pushRead_step {t : Traffic} (ha : ArrayInv cfg s) (ht : TrafficInv s t)
    (hk : CaptureInv cfg s t) {c : Capture} (h : (t.update cfg s i).push = some c) :
    BurstRead 4 c.data ((running cfg s i).pushSt = .read) (running cfg s i).pushIdx
      (running cfg s i).pushCap (running cfg s i).pushCapIdx
      ((running cfg s i).dataRdata (running cfg s i).pushWay)
      (lineWords cfg (running cfg s i) (running cfg s i).pushWay c.line)
      (running cfg s i).pushData := by
  have hcapd : (running cfg s i).pushCap = decide (s.pushSt = .read) := rfl
  have hst : (running cfg s i).pushSt = nextPushSt cfg s i := rfl
  have hidxd : (running cfg s i).pushIdx = nextPushIdx cfg s i := rfl
  simp only [Traffic.update] at h
  split_ifs at h with hs hdone
  · -- the snoop: the four words are in the array
    obtain rfl := Option.some.inj h
    have hidle := (sPush_spec hs).1
    have hway : (running cfg s i).pushWay = hway cfg s := by simp [running, hs]
    have hread : nextPushSt cfg s i = .read := by simp [nextPushSt, hidle, hs]
    have hidx : nextPushIdx cfg s i = 0 := by simp [nextPushIdx, hidle, hs]
    rw [hcapd, hst, hidxd, hway, hread, hidx, hidle, decide_eq_true rfl, decide_eq_false (by simp)]
    refine BurstRead.start (by decide) (fun d _ => ?_)
    exact pushWords_kept ha hk (Or.inl ⟨hs, rfl, rfl⟩) d
  · have hread := hk.push c h
    obtain ⟨hne, hline⟩ := ht.push c h
    have hway : (running cfg s i).pushWay = s.pushWay := by simp [running, hs]
    rw [hcapd, hst, hidxd, hway]
    by_cases hr : s.pushSt = .read
    · -- reading
      have hnext : nextPushSt cfg s i = if s.pushIdx = 3 then .req else .read := by
        simp [nextPushSt, hr]
      have hidx : nextPushIdx cfg s i = (s.pushIdx + 1) % 4 := by simp [nextPushIdx, hr]
      have hdata : (running cfg s i).dataRdata s.pushWay =
          lineWords cfg s s.pushWay c.line s.pushIdx := by
        show s.dataRam s.pushWay (dataRaddr cfg s i).1 (dataRaddr cfg s i).2 = _
        simp [dataRaddr, hr, lineWords, hline]
      have hlt := hread.idx_lt (by simp [hr])
      rw [hr, decide_eq_true rfl] at hread ⊢
      rw [hdata, hidx, hnext]
      refine hread.advance ?_ ?_ (fun d _ => pushWords_kept ha hk (Or.inr ⟨hr, rfl, hline⟩) d)
      · intro hr'
        split_ifs at hr' with h3
        · simp at hr'
        · omega
      · intro hr'
        split_ifs at hr' with h3
        · omega
        · simp at hr'
    · -- waiting for the bus
      have hnot : nextPushSt cfg s i ≠ .read := by
        intro hn
        rcases nextPushSt_eq_read.1 hn with ⟨hs', -⟩ | ⟨hr', -⟩
        · exact hs hs'
        · exact hr hr'
      rw [decide_eq_false hr] at hread ⊢
      rw [decide_eq_false hnot]
      exact hread.drain

/-- **The buffers keep what they captured.** -/
theorem captureInv_step {t : Traffic} (ha : ArrayInv cfg s) (ht : TrafficInv s t)
    (hk : CaptureInv cfg s t) : CaptureInv cfg (running cfg s i) (t.update cfg s i) where
  clear h := by
    have hphase : phaseOf (nextState cfg s i) = some .cobRead := by
      rw [show nextState cfg s i = .cobRead from h]
      rfl
    intro hr
    rcases nextPushSt_eq_read.1 hr with ⟨hs, -⟩ | ⟨hread, -⟩
    · obtain ⟨-, hne, -, -, -, hsnp, -⟩ := sPush_spec hs
      rcases cob_phase_running ha.control hphase with ⟨hgo, -⟩ | ⟨hold, -, hpush⟩
      · simp [(lkGo_spec hgo).2.1] at hsnp
      · exact hne (cobRead_of_next hold h)
    · rcases cob_phase_running ha.control hphase with ⟨hgo, -⟩ | ⟨hold, -, -⟩
      · exact (lkGo_spec hgo).2.2.1 hread
      · exact hk.clear (cobRead_of_next hold h) hread
  apart h q hq hw := by
    have hr := nextPushSt_eq_read.1 h
    cases hp : phaseOf s.state with
    | none =>
      obtain ⟨-, hgo, -⟩ := enter_phase hp hq
      obtain ⟨-, hsnp, hread, -⟩ := lkGo_spec hgo
      rcases hr with ⟨hs, -⟩ | ⟨hs, -⟩
      · simp [(sPush_spec hs).2.2.2.2.2.1] at hsnp
      · exact absurd hs hread
    | some p =>
      have hgo := @lkGo_of_phase cfg s i _ hp
      have hacc := @reqAccept_of_phase cfg s i _ hp
      have hway : (running cfg s i).way = s.way := by simp [running, hgo]
      have hw' : Writing s.plan := by
        rcases @phase_step cfg s i _ hp with ⟨-, -, hn⟩ | ⟨-, -, hn⟩ | ⟨-, -, -, -, hn⟩
        · rw [show (running cfg s i).plan = nextPlan cfg s i from rfl, hn] at hw
          exact writing_of_clear hw
        · rw [show (running cfg s i).plan = nextPlan cfg s i from rfl, hn] at hw
          exact hw
        · rw [show (running cfg s i).state = nextState cfg s i from rfl, hn] at hq
          simp [phaseOf] at hq
      rw [hway, reqSet_running hacc]
      rcases hr with ⟨hs, -⟩ | ⟨hs, -⟩
      · have hpw : (running cfg s i).pushWay = Dcache.hway cfg s := by simp [running, hs]
        have hpl : (running cfg s i).pushLine = snpLine s := by simp [running, hs]
        rw [hpw, hpl]
        exact push_apart ha hs hp hw'
      · have hno : sPush cfg s i = false := by
          cases hsp : sPush cfg s i with
          | false => rfl
          | true => simp [(sPush_spec hsp).1] at hs
        have hpw : (running cfg s i).pushWay = s.pushWay := by simp [running, hno]
        have hpl : (running cfg s i).pushLine = s.pushLine := by simp [running, hno]
        rw [hpw, hpl]
        exact hk.apart hs p hp hw'
  castout _ h := castoutRead_step ht hk h
  push _ h := pushRead_step ha ht hk h

/-! ## Every reachable state -/

/-- The record of a run after `n` edges. -/
def traffic (r : Run (machine cfg)) (n : ℕ) : Traffic :=
  r.history Traffic.start (fun t s i => t.update cfg s i) n

/-- What holds of every reachable state and its record. -/
structure CoherentInv (cfg : Config) (s : State) (t : Traffic) : Prop where
  arrays : ArrayInv cfg s
  traffic : TrafficInv s t
  capture : CaptureInv cfg s t

theorem coherentInv_initial (h : (machine cfg).Initial s) : CoherentInv cfg s Traffic.start := by
  obtain ⟨hst, -, hwq, hpush, -⟩ := state_initial h
  refine ⟨arrayInv_initial h, ⟨nofun, ?_, ?_, nofun, nofun, ?_⟩, ⟨?_, ?_, nofun, nofun⟩⟩
  · simp [hst, phaseOf]
  · simp [Traffic.start, hwq]
  · simp [hpush]
  · simp [hst]
  · simp [hpush]

theorem coherentInv_run {r : Run (machine cfg)} {n : ℕ} (h : r.Obeys OutOfReset n) :
    CoherentInv cfg (r.state n) (traffic r n) :=
  Run.invariant_history (I := CoherentInv cfg) (fun _ hs => coherentInv_initial hs)
    (fun s t i hI hi => by
      show CoherentInv cfg (step cfg s i) _
      rw [step_running hi]
      exact ⟨arrayInv_step hi hI.arrays,
        trafficInv_step hI.arrays.control hI.arrays.castout hI.traffic,
        captureInv_step hI.arrays hI.traffic hI.capture⟩) h

end Dcache
end SloPPC603
