import SloPPC603.Router.Pages
import SloPPC603.Router.Translate

/-!
# What the micro-TLBs repeat

An entry of a micro-TLB says what the translation sequence said when it was filled.
Every update of the committed state but that of an LRU bit clears both micro-TLBs on
the same edge, so what an entry says is still so.

* `EntryRepeats` — an entry says what the committed state says.
* `Repeats`, `repeats_run` — every valid entry does, in every run.
* `iHit_outcome`, `dHit_outcome` — a hit gives the outcome of the request.
* `storeCheck_outcome` — a store to a checked page is allowed.
-/

namespace SloPPC603
namespace Router

open Clocked

/-! ## The committed state without a flush -/

section Flush

variable {cfg : Config} {s : State} {i : Input}

/-- What a clear `utlb_flush` excludes. -/
theorem of_not_utlbFlush (hf : utlbFlush cfg s i = false) : s.running = true ∧
    contextFire cfg s i = false ∧ s.owner ≠ .tlbMgmt ∧ (batInput cfg s i).prepareCommit = false ∧
    (segmentInput cfg s i).prepareCommit = false ∧ (tlbInput cfg s i).prepareCommit = false := by
  simp only [utlbFlush, Bool.or_eq_false_iff, Bool.not_eq_false', decide_eq_false_iff_not] at hf
  obtain ⟨⟨⟨⟨⟨⟨hrun, hctx⟩, hbat⟩, hseg⟩, hinv⟩, hfill⟩, hmgmt⟩ := hf
  refine ⟨hrun, hctx, hmgmt, ?_, ?_, ?_⟩
  · simp only [batInput, Bool.and_right_comm _ s.running, hbat, Bool.false_and]
  · simp only [segmentInput, hrun, Bool.and_true, hseg]
  · simp only [tlbInput, hinv, hfill, Bool.or_self, Bool.and_false]

/-- Without a flush no more than an LRU bit moves. -/
theorem arch_not_utlbFlush (hc : Ctrl cfg s) (h : Seq cfg s) (hrst : i.rstN = true)
    (hf : utlbFlush cfg s i = false) : (step cfg s i).arch =
      if s.tlb.lookup && s.route = .pageResponse then touched cfg s.arch s.request s.pageSr
      else s.arch := by
  obtain ⟨hrun, hctx, hmgmt, hbat, hseg, htlb⟩ := of_not_utlbFlush hf
  apply arch_kept h hrst (startFire_of_running hrun) hctx (hc.batStore hrun).1
    (by simp [Bat.commitFire, hbat]) (by simp [Segment.commitFire, hseg])
    (by simp [Tlb.commitFire, htlb])
  intro hl
  cases ho : s.owner with
  | tlbInv => exact Or.inr (hc.tlbKind (Or.inl ho) hl)
  | tlbFill => exact Or.inr (hc.tlbKind (Or.inr ho) hl)
  | tlbMgmt => exact absurd ho hmgmt
  | none => exact Or.inl (route_of_lookup hc ho hl)
  | batCsr | segment =>
    have heq := (hc.tlb (by rw [ho]; rfl)).2.1
    rw [hl, Bool.true_or, eq_comm, decide_eq_true_eq] at heq
    exact Or.inl heq

/-- **Without a flush the committed state only loses an LRU bit.** -/
theorem arch_of_not_utlbFlush (hc : Ctrl cfg s) (h : Seq cfg s) (hrst : i.rstN = true)
    (hf : utlbFlush cfg s i = false) : SameEntries s.arch (step cfg s i).arch := by
  rw [arch_not_utlbFlush hc h hrst hf]
  split_ifs
  · exact sameFor_touched.sameEntries
  · exact (SameFor.refl true _).sameEntries

end Flush

/-! ## Entries -/

/-- An entry says what the committed state says of its page. -/
def EntryRepeats (cfg : Config) (a : Arch) (instruction : Bool) (e : MicroTlb.Entry) : Prop :=
  ∀ x : Access, x.instruction = instruction → (instruction && x.write) = false →
    x.ea.extractLsb' 12 20 = e.page → (x.write = true → e.writeOk = true) →
      outcome cfg a x = .allow (e.rpn ++ x.ea.extractLsb' 0 12) e.wimg e.esa

section Entries

variable {cfg : Config} {a a' : Arch} {s : State} {i : Input} {instruction : Bool}
  {e : MicroTlb.Entry}

theorem EntryRepeats.same (h : EntryRepeats cfg a instruction e) (hsame : SameEntries a a') :
    EntryRepeats cfg a' instruction e := by
  intro x hx hlegal hpage hwrite
  exact outcome_lru hsame (h x hx hlegal hpage hwrite)

/-- An allowed access speaks for its page. -/
theorem entryRepeats_of_outcome {x : Access} {pa : BitVec 32}
    (h : outcome cfg a x = .allow pa e.wimg e.esa) (hpage : e.page = x.ea.extractLsb' 12 20)
    (hrpn : e.rpn = pa.extractLsb' 12 20)
    (hwrite : e.writeOk = true → outcomeWriteOk cfg a x = true) :
    EntryRepeats cfg a x.instruction e := by
  intro y hy hlegal hypage hywrite
  have hsame : SamePage x.ea y.ea := hpage.symm.trans hypage.symm
  have hout := @outcome_page cfg a x y.ea y.write y.kind y.fp pa e.wimg e.esa hsame hlegal h
    fun hw => hwrite (hywrite hw)
  rw [← hrpn, ← hy] at hout
  exact hout

theorem route_of_routeAllow (ha : routeAllow s = true) : s.route ≠ .idle := by
  intro hr
  simp [routeAllow, batReply, pageReply, hr] at ha

/-- A translation writes down whether it would allow a write. -/
theorem routeWriteOk_eq (h : Seq cfg s) (ha : routeAllow s = true) :
    routeWriteOk s = outcomeWriteOk cfg s.arch (slowAccess s) := by
  simp only [routeAllow, batReply, pageReply, Bool.or_eq_true, Bool.and_eq_true,
    decide_eq_true_eq] at ha
  rcases ha with ⟨⟨hr, -⟩, ha⟩ | ⟨⟨hr, hv⟩, ha⟩
  · have hsaid := h.batSaid hr
    rw [hsaid] at ha
    simp only [outcomeWriteOk, ← h.taken (by simp [hr] : s.route ≠ .idle), ha, if_true,
      routeWriteOk, routeFromTlb, hr, hsaid]
    rfl
  · have hmissed := (h.missed (by simp [hr, RouteState.paging])).1
    have hword := h.word (Or.inr hr)
    simp only [outcomeWriteOk, ← h.taken (by simp [hr] : s.route ≠ .idle), hmissed,
      routeWriteOk, routeFromTlb, hr, ← hword, ← h.pageSaid hv hr]
    rfl

end Entries

/-! ## The invariant -/

/-- Every entry of a micro-TLB says what the committed state says. -/
structure UtlbRepeats (cfg : Config) (a : Arch) (instruction : Bool) (u : MicroTlb.Config)
    (t : MicroTlb.State) : Prop where
  once : MicroTlb.Inv u t
  entry : ∀ k, t.valid k = true → EntryRepeats cfg a instruction (t.entry k)

/-- Both micro-TLBs do. -/
structure Repeats (cfg : Config) (s : State) : Prop where
  instruction : UtlbRepeats cfg s.arch true cfg.iUtlb s.iUtlb
  data : UtlbRepeats cfg s.arch false cfg.dUtlb s.dUtlb

section Step

variable {cfg : Config} {s : State} {i : Input}

theorem utlb_reset {u : MicroTlb.Config} {t : MicroTlb.State} {j : MicroTlb.Input} {a : Arch}
    {instruction : Bool} (hrst : j.rstN = false) :
    UtlbRepeats cfg a instruction u (MicroTlb.step u t j) where
  once := MicroTlb.inv_reset hrst
  entry := by
    intro k hv
    obtain ⟨hrst', -⟩ := MicroTlb.valid_step hv
    rw [hrst] at hrst'
    cases hrst'

/-- An edge of one micro-TLB keeps the invariant when the fill does. -/
theorem utlb_step {u : MicroTlb.Config} {t : MicroTlb.State} {j : MicroTlb.Input} {a a' : Arch}
    {instruction : Bool} (h : UtlbRepeats cfg a instruction u t)
    (hsame : j.flush = false → SameEntries a a')
    (hfill : j.fill = true → EntryRepeats cfg a instruction j.fillEntry) :
    UtlbRepeats cfg a' instruction u (MicroTlb.step u t j) where
  once := MicroTlb.inv_step h.once
  entry := by
    intro k hv
    obtain ⟨-, hflush, ⟨hf, -, hentry⟩ | ⟨-, hold, hentry, -⟩⟩ := MicroTlb.valid_step hv
    · rw [hentry]
      exact (hfill hf).same (hsame hflush)
    · rw [hentry]
      exact (h.entry k hold).same (hsame hflush)

/-- A fill of the instruction micro-TLB says what the committed state says. -/
theorem iFill_repeats (h : Seq cfg s) (hfill : (iUtlbInput cfg s i).fill = true) :
    EntryRepeats cfg s.arch true (iUtlbInput cfg s i).fillEntry := by
  simp only [iUtlbInput, Bool.and_eq_true] at hfill
  obtain ⟨⟨-, ha⟩, hq⟩ := hfill
  have hx : (slowAccess s).instruction = true := by simp [slowAccess, laneAccess, hq]
  have hea : s.request.ea = (slowAccess s).ea := by
    rw [h.taken (route_of_routeAllow ha)]
    rfl
  rw [← hx]
  exact entryRepeats_of_outcome (outcome_of_routeAllow h ha) (by simp only [iUtlbInput, hea]) rfl
    (by simp [iUtlbInput])

/-- A fill of the data micro-TLB does. -/
theorem dFill_repeats (h : Seq cfg s) (hfill : (dUtlbInput cfg s i).fill = true) :
    EntryRepeats cfg s.arch false (dUtlbInput cfg s i).fillEntry := by
  simp only [dUtlbInput, Bool.and_eq_true, Bool.not_eq_true'] at hfill
  obtain ⟨⟨-, ha⟩, hq⟩ := hfill
  have hx : (slowAccess s).instruction = false := by simp [slowAccess, laneAccess, hq]
  have hea : s.request.ea = (slowAccess s).ea := by
    rw [h.taken (route_of_routeAllow ha)]
    rfl
  have hout := outcome_of_routeAllow h ha
  rw [outcome_data_esa hx hout] at hout
  rw [← hx]
  exact entryRepeats_of_outcome hout (by simp only [dUtlbInput, hea]) rfl
    (by simp only [dUtlbInput, routeWriteOk_eq h ha, imp_self])

theorem repeats_reset (hrst : i.rstN = false) : Repeats cfg (step cfg s i) := by
  rw [step_reset hrst]
  exact ⟨utlb_reset hrst, utlb_reset hrst⟩

/-- **The micro-TLBs repeat the committed state**, over an edge. -/
theorem repeats_step (hc : Ctrl cfg s) (h : Seq cfg s) (hrst : i.rstN = true)
    (hr : Repeats cfg s) : Repeats cfg (runState cfg s i) := by
  have hsame := @arch_of_not_utlbFlush cfg s i hc h hrst
  rw [step_run hrst] at hsame
  exact ⟨utlb_step hr.instruction hsame fun hf => iFill_repeats h hf,
    utlb_step hr.data hsame fun hf => dFill_repeats h hf⟩

theorem repeats_run (r : Run (machine cfg)) (n : ℕ) : Repeats cfg (r.state n) :=
  along_run r (fun _ _ => repeats_reset) (fun n => repeats_step (ctrl_run r n) (seq_run r n)) n

end Step

/-! ## Hits -/

section Hits

variable {cfg : Config} {s : State} {i : Input} (hr : Repeats cfg s)
include hr

/-- The projected page, when it is used, is the page of the request. -/
def ProjectionAgrees (cfg : Config) (i : Input) : Prop :=
  cfg.enableDataPageProjection = true → i.dmemReqValid = true →
    i.dataPageProjection.useLookup = true →
      i.dataPageProjection.page i.dataPageProjection.source = i.dmemReq.addr.extractLsb' 12 20

/-- **A fetch hit gives the outcome of the fetch.** -/
theorem iHit_outcome (hhit : iHit cfg s i = true) : outcome cfg s.arch (fetchAccess i.imemReqAddr) =
    .allow (iHitPa cfg s i) (iHitWimg cfg s i) (iHitEsa cfg s i) := by
  simp only [iHit, Bool.and_eq_true] at hhit
  obtain ⟨k, -, hv, hpage, -, hrpn, hwimg, hesa⟩ := MicroTlb.hit_entry hr.instruction.once hhit.2
  have hpage' : (fetchAccess i.imemReqAddr).ea.extractLsb' 12 20 = (s.iUtlb.entry k).page := hpage.symm
  rw [hr.instruction.entry k hv (fetchAccess i.imemReqAddr) rfl rfl hpage' (by simp [fetchAccess]), iHitPa,
    iHitWimg, iHitEsa, hrpn, hwimg, hesa]
  rfl

/-- **A data hit gives the outcome of the access.** -/
theorem dHit_outcome (hv : i.dmemReqValid = true) (hproj : ProjectionAgrees cfg i)
    (hhit : dHit cfg s i = true) : outcome cfg s.arch i.dmemReq.access =
      .allow (dHitPa cfg s i) (dHitWimg cfg s i) .denied := by
  simp only [dHit, Bool.and_eq_true] at hhit
  obtain ⟨k, -, hvk, hpage, hwrite, hrpn, hwimg, -⟩ := MicroTlb.hit_entry hr.data.once hhit.2
  have hpage' : i.dmemReq.access.ea.extractLsb' 12 20 = (s.dUtlb.entry k).page := by
    rw [hpage, MicroTlb.lookupPage]
    split_ifs with huse
    · simp only [Config.dUtlb, Bool.and_eq_true] at huse
      exact (hproj huse.1 hv huse.2).symm
    · rfl
  have hout := hr.data.entry k hvk i.dmemReq.access rfl rfl hpage' hwrite
  rw [outcome_data_esa rfl hout] at hout
  rw [hout, dHitPa, dHitWimg, hrpn, hwimg]
  rfl

/-- **A store to a checked page is allowed.** -/
theorem storeCheck_outcome (hok : storeCheckOk cfg s i = true) {ea : BitVec 32}
    (hpage : ea.extractLsb' 12 20 = i.storeCheckPage) (kind : DmemKind) (fp : Bool) :
    ∃ pa wimg, outcome cfg s.arch
      { instruction := false, write := true, ea := ea, kind := kind, fp := fp } =
        .allow pa wimg .denied := by
  simp only [storeCheckOk, Bool.and_eq_true] at hok
  obtain ⟨k, -, hv, hpage', hw⟩ := MicroTlb.checkHit_entry hok.2
  have hout := hr.data.entry k hv
    { instruction := false, write := true, ea := ea, kind := kind, fp := fp } rfl rfl
    (hpage.trans hpage'.symm) fun _ => hw
  rw [outcome_data_esa rfl hout] at hout
  exact ⟨_, _, hout⟩

end Hits

end Router
end SloPPC603
