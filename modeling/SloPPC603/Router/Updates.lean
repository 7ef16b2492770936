import SloPPC603.Router.Touches
import SloPPC603.Router.Translate

/-!
# Updates of the committed state

The updates the services commit, as an abstract list: a block address register written, a
segment register written, a TLB entry loaded, a TLB set cleared, a context installed.  What
they do depends on the committed state alone.

* `Update`, `Update.apply` — an update and what it does.
* `updates` — those of an edge.
* `arch_updates` — they are all that happens to the committed state but an LRU bit.
* `Updating`, `updating_quiet` — on an edge with updates both lanes are idle.
-/

namespace SloPPC603
namespace Router

open Clocked

/-! ## What they do -/

/-- An update of the committed state. -/
inductive Update
  | bat (spr : BitVec 4) (word : BitVec 32)
  | segment (index : BitVec 4) (word : BitVec 32)
  | tlbLoad (bank way : Bool) (set : ℕ) (e : Tlb.Entry)
  | tlbClear (set : ℕ)
  | context (ir dr pr : Bool) (m : Mmu602)
  deriving DecidableEq, Repr

/-- The other way of a set holds the page of an entry. -/
def otherHolds (cfg : Config) (t : Tlb.Store) (bank way : Bool) (set : ℕ) (e : Tlb.Entry) : Bool :=
  t.valid bank (!way) set && (t.entries bank (!way) set).page cfg.tlb = e.page cfg.tlb

/-- The committed state after an update. -/
def Update.apply (cfg : Config) (a : Arch) : Update → Arch
  | .bat spr word => { a with banks := a.banks.set spr word }
  | .segment index word => { a with sr := Segment.Store.set a.sr index word }
  | .tlbLoad bank way set e =>
    { a with
      tlb := (a.tlb.fillFlags bank way (otherHolds cfg a.tlb bank way set e) set).writeEntry
        bank way set e }
  | .tlbClear set => { a with tlb := a.tlb.clearSet set }
  | .context ir dr pr m => { a with ir := ir, dr := dr, pr := pr, mmu602 := m }

/-- Agreeing states are left agreeing by an update. -/
theorem Update.apply_agrees {cfg : Config} {bank : Bool} {a a' : Arch} (u : Update)
    (h : Agrees bank a a') : Agrees bank (u.apply cfg a) (u.apply cfg a') := by
  cases u with
  | bat spr word =>
    exact ⟨by simp [apply, h.banks], h.sr, h.valid, h.entries, h.lru, h.ir, h.dr, h.pr, h.mmu602⟩
  | segment index word =>
    exact ⟨h.banks, by simp [apply, h.sr], h.valid, h.entries, h.lru, h.ir, h.dr, h.pr, h.mmu602⟩
  | tlbLoad b way set e =>
    have hother : otherHolds cfg a'.tlb b way set e = otherHolds cfg a.tlb b way set e := by
      rw [otherHolds, otherHolds, h.valid]
      cases hv : a.tlb.valid b (!way) set with
      | false => rfl
      | true => rw [h.entries b (!way) set hv]
    refine ⟨h.banks, h.sr, ?_, ?_, ?_, h.ir, h.dr, h.pr, h.mmu602⟩
    · simp only [apply, hother, Tlb.Store.writeEntry, Tlb.Store.fillFlags, h.valid]
    · intro b' way' set' hv
      simp only [apply, Tlb.Store.writeEntry, Tlb.Store.fillFlags] at hv ⊢
      split_ifs at hv ⊢ with hhere hdup
      · rfl
      · exact h.entries b' way' set' hv
    · funext set'
      simp only [apply, Tlb.Store.writeEntry, Tlb.Store.fillFlags, h.lru]
  | tlbClear set =>
    refine ⟨h.banks, h.sr, ?_, ?_, h.lru, h.ir, h.dr, h.pr, h.mmu602⟩
    · simp only [apply, Tlb.Store.clearSet, h.valid]
    · intro b' way' set' hv
      simp only [apply, Tlb.Store.clearSet] at hv ⊢
      split_ifs at hv
      exact h.entries b' way' set' hv
  | context ir dr pr m =>
    exact ⟨h.banks, h.sr, h.valid, h.entries, h.lru, rfl, rfl, rfl, rfl⟩

/-! ## The updates of an edge -/

section Edge

variable (cfg : Config) (s : State) (i : Input)

/-- The block address registers written. -/
def batUpdates : List Update :=
  (if s.bat.writeStore then
    [.bat s.bat.writeSpr (Bat.writeValue cfg.bat s.bat.writeSpr s.bat.writeData)] else []) ++
  if Bat.commitFire cfg.bat s.bat (batInput cfg s i) then
    [.bat s.bat.preparedSpr s.bat.preparedData] else []

/-- The segment register written. -/
def segmentUpdates : List Update :=
  if Segment.commitFire cfg.enableSegmentRegisters s.segment (segmentInput cfg s i) then
    [.segment s.segment.preparedIndex s.segment.preparedData] else []

/-- The TLB entry loaded, or the set cleared. -/
def tlbUpdates : List Update :=
  if Tlb.commitFire cfg.tlb s.tlb (tlbInput cfg s i) then
    if s.tlb.preparedIsRefill then
      [.tlbLoad s.tlb.preparedBank s.tlb.preparedWay s.tlb.preparedSet s.tlb.preparedEntry]
    else [.tlbClear s.tlb.preparedSet]
  else if Tlb.fillCommit s.tlb then
    [.tlbLoad s.tlb.request.bank s.tlb.request.way (Tlb.setIndex cfg.tlb s.tlb.request)
      (Tlb.refillEntry cfg.tlb s.tlb.request)]
  else if Tlb.invalidateCommit s.tlb then [.tlbClear (Tlb.setIndex cfg.tlb s.tlb.request)]
  else []

/-- The context installed. -/
def contextUpdates : List Update :=
  if contextFire cfg s i then
    [.context i.context.ir i.context.dr i.context.pr (sampled602 cfg i)]
  else if startFire cfg s i then
    [.context i.start.ir i.start.dr i.start.pr (sampled602 cfg i)]
  else []

/-- The updates of an edge. -/
def updates : List Update :=
  batUpdates cfg s i ++ segmentUpdates cfg s i ++ tlbUpdates cfg s i ++ contextUpdates cfg s i

/-- An edge on which something may be updated. -/
def Updating : Prop := s.running = false ∨ s.owner ≠ .none ∨ contextFire cfg s i = true

end Edge

/-! ## They are all that happens -/

section Loads

variable {cfg : Config} {a : Arch} {q : Tlb.Request}

/-- The load of a request's entry. -/
theorem apply_tlbLoad : (Update.tlbLoad q.bank q.way (Tlb.setIndex cfg.tlb q)
    (Tlb.refillEntry cfg.tlb q)).apply cfg a = { a with tlb := Tlb.load cfg.tlb q a.tlb } := by
  have hother : otherHolds cfg a.tlb q.bank q.way (Tlb.setIndex cfg.tlb q)
      (Tlb.refillEntry cfg.tlb q) =
        Tlb.wayMatch cfg.tlb q (Tlb.view cfg.tlb q a.tlb) !q.way := by
    rw [Bool.eq_iff_iff, Tlb.wayMatch_iff, otherHolds, Tlb.page_refillEntry, Bool.and_eq_true,
      decide_eq_true_eq]
    rfl
  rw [Update.apply, hother, Tlb.load]

end Loads

section Step

variable {cfg : Config} {s : State} {i : Input} {a : Arch}

theorem foldl_batUpdates (hrst : i.rstN = true) (ha : a.banks = s.bat.banks) :
    (batUpdates cfg s i).foldl (Update.apply cfg) a =
      { a with banks := (Bat.step cfg.bat s.bat (batInput cfg s i)).banks } := by
  have hin : (batInput cfg s i).rstN = true := hrst
  have hbanks : (Bat.step cfg.bat s.bat (batInput cfg s i)).banks =
      Bat.nextBanks cfg.bat s.bat (batInput cfg s i) := by
    rw [Bat.step, if_pos hin]
    rfl
  rw [hbanks, batUpdates, Bat.nextBanks, ← ha]
  split_ifs <;> rfl

theorem foldl_segmentUpdates (hrst : i.rstN = true) (ha : a.sr = Segment.srRead s.segment) :
    (segmentUpdates cfg s i).foldl (Update.apply cfg) a =
      { a with
        sr := Segment.srRead
          (Segment.step cfg.enableSegmentRegisters s.segment (segmentInput cfg s i)) } := by
  have hin : (segmentInput cfg s i).rstN = true := hrst
  have hne : (segmentReq s i).kind ≠ .write := by
    simp only [segmentReq]
    split_ifs <;> simp
  have hwrite : Segment.writeFire s.segment (segmentInput cfg s i) = false := by
    simp [Segment.writeFire, segmentInput, hne]
  rw [segmentUpdates]
  split_ifs with hcommit
  · have hwe : Segment.srWe cfg.enableSegmentRegisters s.segment (segmentInput cfg s i) = true := by
      simp [Segment.srWe, hin, hcommit]
    rw [Segment.srRead_write hwe hin, Segment.srWaddr, Segment.srWdata, if_pos hcommit,
      if_pos hcommit, ← ha]
    rfl
  · rw [Bool.not_eq_true] at hcommit
    have hwe : Segment.srWe cfg.enableSegmentRegisters s.segment (segmentInput cfg s i) = false := by
      simp [Segment.srWe, hwrite, hcommit]
    rw [Segment.srRead_keep hwe hin, ← ha]
    rfl

theorem foldl_tlbUpdates (h : Seq cfg s) (hrst : i.rstN = true) (ha : a.tlb = s.tlb.store)
    (hkind : s.tlb.lookup = true → s.tlb.request.kind ≠ .lookup) :
    (tlbUpdates cfg s i).foldl (Update.apply cfg) a =
      { a with tlb := (Tlb.step cfg.tlb s.tlb (tlbInput cfg s i)).store } := by
  have hin : (tlbInput cfg s i).rstN = true := hrst
  obtain ⟨l, hinv, -⟩ := h.tlbLedger
  rw [tlbUpdates]
  cases hcommit : Tlb.commitFire cfg.tlb s.tlb (tlbInput cfg s i) with
  | true =>
    -- the update held is that of a prepare request
    have hprep : s.tlb.prepared = true := by
      simp only [Tlb.commitFire, Bool.and_eq_true] at hcommit
      exact hcommit.1.2
    have hl : s.tlb.lookup = false := by
      by_contra hl
      rw [hinv.lookup_alone (by simpa using hl)] at hprep
      exact Bool.false_ne_true hprep
    have hsome : l.held.isSome = true := hinv.settles.held.symm.trans hprep
    obtain ⟨q, hq⟩ := Option.isSome_iff_exists.1 hsome
    have hres := hinv.held q hq
    have hkinds : q.kind = .prepareRefill ∨ q.kind = .prepareInvalidate := by
      have hallowed := hres.allowed
      simp only [Tlb.prepareAllowed, Bool.and_eq_true, Bool.or_eq_true,
        decide_eq_true_eq] at hallowed
      rcases hallowed.2 with hk | hk
      · exact Or.inr hk.1
      · exact Or.inl hk.1
    rw [if_pos rfl, Tlb.step_store_commit hin hcommit hl hres, ← ha]
    rcases hkinds with hk | hk
    · rw [hres.kind, if_pos (by simp [hk]), hres.bank hk, hres.way hk, hres.set, hres.entry hk]
      rw [List.foldl_cons, List.foldl_nil, apply_tlbLoad]
      simp [Tlb.service, hk, hres.allowed]
    · rw [hres.kind, if_neg (by simp [hk]), hres.set]
      simp [Tlb.service, hk, hres.allowed, Update.apply]
  | false =>
    rw [if_neg Bool.false_ne_true]
    cases hl : s.tlb.lookup with
    | false =>
      have hfill : Tlb.fillCommit s.tlb = false := by simp [Tlb.fillCommit, hl]
      have hclear : Tlb.invalidateCommit s.tlb = false := by simp [Tlb.invalidateCommit, hl]
      rw [Tlb.step_store_keep hin hcommit hl, hfill, hclear, if_neg Bool.false_ne_true,
        if_neg Bool.false_ne_true, ← ha]
      rfl
    | true =>
      rw [Tlb.step_store_lookup hin hcommit hl (Tlb.readView_eq hinv hl), ← ha]
      have hk := hkind hl
      by_cases hfill : Tlb.fillCommit s.tlb = true
      · simp only [hfill, if_true, List.foldl_cons, List.foldl_nil, apply_tlbLoad]
        simp only [Tlb.fillCommit, Bool.and_eq_true, decide_eq_true_eq, Bool.not_eq_true'] at hfill
        simp [Tlb.service, Tlb.isPrepare, hfill]
      by_cases hclear : Tlb.invalidateCommit s.tlb = true
      · rw [if_neg hfill, if_pos hclear]
        simp only [Tlb.invalidateCommit, Bool.and_eq_true, decide_eq_true_eq,
          Bool.not_eq_true'] at hclear
        simp [Tlb.service, Tlb.isPrepare, hclear, Update.apply]
      rw [if_neg hfill, if_neg hclear]
      have hkeep : (if Tlb.isPrepare s.tlb.request then a.tlb
          else (Tlb.service cfg.tlb).perform s.tlb.request a.tlb) = a.tlb := by
        simp only [Tlb.fillCommit, Tlb.invalidateCommit, hl, Bool.and_true, Bool.and_eq_true,
          decide_eq_true_eq, Bool.not_eq_true', not_and, Bool.not_eq_false] at hfill hclear
        split_ifs with hprep
        · rfl
        · simp only [Tlb.isPrepare, Bool.or_eq_true, decide_eq_true_eq, not_or] at hprep
          simp only [Tlb.service]
          split <;> simp_all
      rw [hkeep]
      rfl

/-- **An update edge does its updates and nothing else.** -/
theorem arch_updates (h : Seq cfg s) (hrst : i.rstN = true)
    (hkind : s.tlb.lookup = true → s.tlb.request.kind ≠ .lookup) :
    (step cfg s i).arch = (updates cfg s i).foldl (Update.apply cfg) s.arch := by
  rw [updates, List.foldl_append, List.foldl_append, List.foldl_append,
    foldl_batUpdates hrst rfl, foldl_segmentUpdates hrst rfl, foldl_tlbUpdates h hrst rfl hkind,
    step_run hrst, contextUpdates]
  by_cases hctx : contextFire cfg s i = true
  · rw [if_pos hctx]
    simp [State.arch, runState, hctx, Update.apply]
  · rw [Bool.not_eq_true] at hctx
    by_cases hstart : startFire cfg s i = true
    · rw [hctx, hstart]
      simp [State.arch, runState, hctx, hstart, Update.apply]
    · rw [Bool.not_eq_true] at hstart
      rw [hctx, hstart]
      simp [State.arch, runState, hctx, hstart]

/-! ## Edges with updates and without -/

/-- The TLB looks up for the sequence only. -/
def LooksUp (s : State) : Prop :=
  s.tlb.lookup = true → s.route ≠ .pageResponse → s.tlb.request.kind ≠ .lookup

theorem looksUp_step (hrst : i.rstN = true) : LooksUp (runState cfg s i) := by
  have hin : (tlbInput cfg s i).rstN = true := hrst
  intro hl hr
  have hl' : (Tlb.step cfg.tlb s.tlb (tlbInput cfg s i)).lookup = true := hl
  rw [Tlb.lookup_step hin, Bool.and_eq_true] at hl'
  have hfire : tlbReqValid cfg s i = true ∧ tlbReqReady cfg s i = true := by
    have hfire := hl'.2
    simp only [Tlb.requestFire, Bool.and_eq_true] at hfire
    exact hfire
  show (Tlb.step cfg.tlb s.tlb (tlbInput cfg s i)).request.kind ≠ .lookup
  rw [Tlb.request_step hin hl'.2]
  by_cases hroute : s.route = .pageOffer
  · exact absurd (nextRoute_pageResponse.2 (Or.inl ⟨hroute, hfire⟩)) hr
  · show (tlbReq cfg s i).kind ≠ .lookup
    simp only [tlbReq, hroute, if_false, tlbUpdateField]
    split_ifs <;> simp

theorem looksUp_run (r : Run (machine cfg)) (n : ℕ) : LooksUp (r.state n) := by
  refine along_run r (fun s i hrst hl => ?_) (fun n hrst _ => looksUp_step hrst) n
  have hin : (tlbInput cfg s i).rstN = false := hrst
  rw [step_reset hrst] at hl
  have hl' : (Tlb.step cfg.tlb s.tlb (tlbInput cfg s i)).lookup = true := hl
  simp [Tlb.step, Tlb.resetState, hin] at hl'

/-- While something may be updated the lanes and the sequence are idle, and no request is
accepted. -/
theorem updating_quiet (hc : Ctrl cfg s) (hu : Updating cfg s i) : lanesIdle s = true ∧
    s.route = .idle ∧ iAccept cfg s i = false ∧ dAccept cfg s i = false := by
  have hidle : lanesIdle s = true := by
    rcases hu with hrun | hown | hctx
    · exact (hc.stopped hrun).1
    · exact hc.owned hown
    · by_contra hb
      rw [contextFire_of_busy (by simpa using hb)] at hctx
      exact Bool.false_ne_true hctx
  refine ⟨hidle, hc.route_idle hidle, ?_⟩
  rcases hu with hrun | hown | hctx
  · exact not_accept (by simp [laneAcceptOk, hrun])
  · exact not_accept (by simp [laneAcceptOk, hown])
  · simp only [contextFire, contextReady, quiescent, Bool.and_eq_true, Bool.not_eq_true'] at hctx
    have hd := hctx.2.1.1.1.1.1.2.2
    have hi := hctx.2.1.1.1.1.1.2.1.2
    refine ⟨by simp [iAccept, hi], ?_⟩
    simp [dAccept, hd]

/-- An edge without updates. -/
theorem updates_nil (hc : Ctrl cfg s) (hu : ¬ Updating cfg s i) : updates cfg s i = [] := by
  simp only [Updating, not_or, Bool.not_eq_false, Bool.not_eq_true, not_not] at hu
  obtain ⟨hrun, hown, hctx⟩ := hu
  obtain ⟨hcalmB, -⟩ := hc.bat hrun (by simp [hown])
  obtain ⟨hcalmS, -⟩ := hc.segment (by simp [hown])
  obtain ⟨hcalmT, -, -, hkind⟩ := hc.tlb (by rw [hown]; rfl)
  have hfill : Tlb.fillCommit s.tlb = false := by
    cases hl : s.tlb.lookup with
    | false => simp [Tlb.fillCommit, hl]
    | true => simp [Tlb.fillCommit, hkind hl]
  have hclear : Tlb.invalidateCommit s.tlb = false := by
    cases hl : s.tlb.lookup with
    | false => simp [Tlb.invalidateCommit, hl]
    | true => simp [Tlb.invalidateCommit, hkind hl]
  simp [updates, batUpdates, segmentUpdates, tlbUpdates, contextUpdates, hcalmB.writeStore,
    hcalmB.not_commitFire, hcalmS.not_commitFire, hcalmT.not_commitFire, hfill, hclear, hctx,
    startFire_of_running hrun]

end Step

end Router
end SloPPC603
