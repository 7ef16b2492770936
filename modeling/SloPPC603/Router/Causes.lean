import SloPPC603.Router.Reference

/-!
# What each reply comes to

The router's outcome in each of the cases the architecture distinguishes: the clean reply
predicates give exactly one cause to every reply a block address entry, a segment or a
page's entry can bring about.

* `outcome_real`, `outcome_block` — without a page.
* `pageOutcome_directStore`, … — each reply of the TLB.
* `outcome_segment`, `outcome_entry`, … — the outcome past the block address entries.
-/

namespace SloPPC603
namespace Router

/-! ## The block address entries -/

section Blocks

variable {cfg : Config} {a : Arch} {x : Access} {wimg : BitVec 4} {i : BitVec 2}

/-- The translator's match of an entry. -/
theorem entryMatch_iff {k : ℕ} :
    Bat.entryMatch (batAccess (requestOf cfg a x) wimg)
      (fun i => a.banks.upper (!x.instruction) (BitVec.ofNat 2 i)) k = true ↔
      BlockMatches cfg a x (BitVec.ofNat 2 k) := by
  rw [Bat.entryMatch, Bool.and_eq_true, decide_eq_true_iff]
  exact Iff.rfl

theorem any_match : (List.range 4).any (Bat.entryMatch (batAccess (requestOf cfg a x) wimg)
      fun i => a.banks.upper (!x.instruction) (BitVec.ofNat 2 i)) = true ↔
    ∃ i, BlockMatches cfg a x i := by
  rw [List.any_eq_true]
  constructor
  · rintro ⟨k, -, hk⟩
    exact ⟨_, entryMatch_iff.1 hk⟩
  · rintro ⟨i, hi⟩
    refine ⟨i.toNat, List.mem_range.2 i.isLt, ?_⟩
    rw [entryMatch_iff, BitVec.ofNat_toNat, BitVec.setWidth_eq]
    exact hi

/-- Where no two entries overlap, the winner is the entry that matches. -/
theorem ofWinner_eq (hdis : BatsDisjoint a) (hm : BlockMatches cfg a x i) (f : ℕ → BitVec 32) :
    Bat.ofWinner (batAccess (requestOf cfg a x) wimg)
      (fun i => a.banks.upper (!x.instruction) (BitVec.ofNat 2 i)) f = f i.toNat := by
  have honly : ∀ k < 4, BlockMatches cfg a x (BitVec.ofNat 2 k) → k = i.toNat := by
    intro k hk hmk
    have heq := hdis _ _ _ _ _ hmk hm
    rw [← heq, BitVec.toNat_ofNat, Nat.mod_eq_of_lt hk]
  apply MicroTlb.foldl_or_unique i.isLt
  · simp only [Bat.winner, Bool.and_eq_true, List.all_eq_true, List.mem_range,
      Bool.not_eq_true', ← Bool.not_eq_true, entryMatch_iff]
    refine ⟨by simpa using hm, ?_⟩
    intro j hj hmj
    exact absurd (honly j (hj.trans i.isLt) hmj) (Nat.ne_of_lt hj)
  · intro j hj hw
    simp only [Bat.winner, Bool.and_eq_true, entryMatch_iff] at hw
    exact honly j hj hw.1

/-- What the translator is asked of an access. -/
theorem batTranslation :
    (batAnswer cfg a (requestOf cfg a x)).translation =
      if relocated a x then
        Bat.translateEnabled { validateBank := false, has602 := cfg.has602 }
          (batAccess (requestOf cfg a x) a.mmu602.wimg)
          (fun i => a.banks.upper (!x.instruction) (BitVec.ofNat 2 i))
          (fun i => a.banks.lower (!x.instruction) (BitVec.ofNat 2 i))
      else
        Bat.translateBypass { validateBank := false, has602 := cfg.has602 }
          (batAccess (requestOf cfg a x) a.mmu602.wimg) := by
  have hnot : (x.instruction && (!x.instruction && x.write)) = false := by
    cases x.instruction <;> rfl
  rw [batAnswer_translation, Bat.translate_eq rfl rfl hnot]
  rfl

/-- A real access is not translated. -/
theorem outcome_real (h : relocated a x = false) :
    outcome cfg a x = .allow x.ea (realWimg cfg a x) .denied := by
  have ht := @batTranslation cfg a x
  rw [h, if_neg Bool.false_ne_true] at ht
  rw [outcome, batEsa, ht]
  rfl

/-- A block address entry that holds the address decides alone. -/
theorem outcome_block (hp : Production cfg) (hdis : BatsDisjoint a)
    (hlegal : x.instruction = true → x.write = false) (h : relocated a x = true)
    (hm : BlockMatches cfg a x i) : outcome cfg a x =
      blockOutcome cfg x (a.banks.upper (!x.instruction) i) (a.banks.lower (!x.instruction) i) := by
  have ht := @batTranslation cfg a x
  rw [h, if_pos rfl, Bat.translateEnabled, if_pos (any_match.2 ⟨i, hm⟩)] at ht
  have hword : BitVec.ofNat 2 i.toNat = i := by simp
  simp only [Bat.translateHit, ofWinner_eq hdis hm, hword] at ht
  -- the translator's write is the access's
  have hwrite : (batAccess (requestOf cfg a x) a.mmu602.wimg).write = x.write := by
    cases hi : x.instruction with
    | false => simp [batAccess, requestOf, hi]
    | true => simp [batAccess, requestOf, hi, hlegal hi]
  have hinstr : (requestOf cfg a x).instruction = x.instruction := rfl
  have hea : (batAccess (requestOf cfg a x) a.mmu602.wimg).ea = x.ea := rfl
  have hfetch : (batAccess (requestOf cfg a x) a.mmu602.wimg).instruction = x.instruction := rfl
  rw [hwrite, hfetch, hea] at ht
  generalize a.banks.upper (!x.instruction) i = u at *
  generalize a.banks.lower (!x.instruction) i = l at *
  rw [outcome, batEsa, batDenial, batFetchIsi, batDataDsi, cleanBatPageMiss, blockOutcome]
  by_cases hprot : l.extractLsb' 0 2 = 0 ∨ (x.write = true ∧ l.extractLsb' 0 2 ≠ 2)
  · have hdenied : (decide (l.extractLsb' 0 2 = 0) ||
        (x.write && decide (l.extractLsb' 0 2 ≠ 2))) = true := by simpa using hprot
    rw [hdenied] at ht
    rw [ht, if_pos hprot, protectionFault]
    cases hi : x.instruction <;> simp [hinstr, hi, hp.liveContext, hp.dataExceptions]
  · have hdenied : (decide (l.extractLsb' 0 2 = 0) ||
        (x.write && decide (l.extractLsb' 0 2 ≠ 2))) = false := by simpa using hprot
    rw [hdenied] at ht
    rw [if_neg hprot]
    cases hne : cfg.has602 && x.instruction && l.getLsbD 10 with
    | true =>
      have hi : x.instruction = true := by
        simp only [Bool.and_eq_true] at hne
        exact hne.1.2
      rw [hne] at ht
      rw [ht]
      simp [hinstr, hi, hp.liveContext]
    | false =>
      rw [hne] at ht
      rw [ht]
      simp

end Blocks

/-! ## The segment and the page -/

section Pages

variable {cfg : Config} {a : Arch} {x : Access} {way : Bool}

/-- The sequence reads the access's segment register. -/
theorem srWord_eq : srWord a (requestOf cfg a x) = segmentWord cfg a x := by
  have hpo : (requestOf cfg a x).po = protectionOnly cfg a := rfl
  have hea : (requestOf cfg a x).ea = x.ea := rfl
  rw [srWord, pageSr, segmentEa, segmentWord, hpo, hea]
  cases hp : protectionOnly cfg a with
  | false => rfl
  | true =>
    have hzero : (0#4 ++ x.ea.extractLsb' 0 28).extractLsb' 28 4 = 0 := by
      apply BitVec.eq_of_getLsbD_eq
      intro k hk
      rw [BitVec.getLsbD_extractLsb', BitVec.getLsbD_append, if_neg (by omega)]
      simp
    rw [if_pos rfl, if_pos rfl, if_pos rfl, hzero]
    rfl

/-- Protection-only mode has no direct-store and no no-execute segments. -/
theorem segmentWord_po (h : protectionOnly cfg a = true) :
    srT (segmentWord cfg a x) = false ∧ srN (segmentWord cfg a x) = false := by
  simp [srT, srN, segmentWord, h]

/-- What the sequence asks of the TLB for an access. -/
def lookupOf (cfg : Config) (a : Arch) (x : Access) : Tlb.Request :=
  lookupRequest (requestOf cfg a x) (segmentWord cfg a x)

/-- What the TLB sees of it. -/
def viewOf (cfg : Config) (a : Arch) (x : Access) : Tlb.View :=
  Tlb.view cfg.tlb (lookupOf cfg a x) a.tlb

theorem wayMatch_pageMatches :
    Tlb.wayMatch cfg.tlb (lookupOf cfg a x) (viewOf cfg a x) way = true ↔
      PageMatches cfg a x way := by
  have hset : Tlb.setIndex cfg.tlb (lookupOf cfg a x) = pageSet cfg a x := rfl
  have hentry : (viewOf cfg a x).entry way = pageEntry cfg a x way := rfl
  have hvalid : (viewOf cfg a x).valid way =
    a.tlb.valid (!x.instruction) way (pageSet cfg a x) := rfl
  rw [Tlb.wayMatch, hentry, hvalid, PageMatches]
  have hpo : (lookupOf cfg a x).po = protectionOnly cfg a := rfl
  have hvsid : (lookupOf cfg a x).vsid = (segmentWord cfg a x).extractLsb' 0 24 := rfl
  have hea : (lookupOf cfg a x).ea = x.ea := rfl
  rw [hpo, hvsid, hea]
  cases h6 : cfg.has602 <;> simp [Config.tlb, h6, and_assoc]

/-- At most one way holds the page. -/
def WaysDistinct (cfg : Config) (a : Arch) (x : Access) : Prop :=
  ¬ (PageMatches cfg a x false ∧ PageMatches cfg a x true)

/-- The lookup of a page that one way holds. -/
theorem matched_of_match (hd : WaysDistinct cfg a x) (hm : PageMatches cfg a x way) :
    Tlb.matched cfg.tlb (lookupOf cfg a x) (viewOf cfg a x) = (if way then 2 else 1) ∧
      Tlb.selectedWay cfg.tlb (lookupOf cfg a x) (viewOf cfg a x) = way := by
  have hother : Tlb.wayMatch cfg.tlb (lookupOf cfg a x) (viewOf cfg a x) (!way) = false := by
    rw [← Bool.not_eq_true, wayMatch_pageMatches]
    intro hm'
    cases way
    · exact hd ⟨hm, hm'⟩
    · exact hd ⟨hm', hm⟩
  have hthis := wayMatch_pageMatches.2 hm
  cases way
  · simp only [Bool.not_false] at hother
    simp [Tlb.matched, Tlb.selectedWay, hthis, hother]
  · simp only [Bool.not_true] at hother
    simp [Tlb.matched, Tlb.selectedWay, hthis, hother]

/-- The lookup of a page that no way holds. -/
theorem matched_of_miss (hm : ∀ way, ¬ PageMatches cfg a x way) :
    Tlb.matched cfg.tlb (lookupOf cfg a x) (viewOf cfg a x) = 0 := by
  have hno : ∀ way, Tlb.wayMatch cfg.tlb (lookupOf cfg a x) (viewOf cfg a x) way = false := by
    intro way
    rw [← Bool.not_eq_true, wayMatch_pageMatches]
    exact hm way
  simp [Tlb.matched, hno]

/-- Past the block address entries the reply of the TLB decides. -/
theorem outcome_paged (hp : Production cfg) (hlegal : x.instruction = true → x.write = false)
    (h : Paged cfg a x) : outcome cfg a x =
      pageOutcome cfg (requestOf cfg a x) (segmentWord cfg a x)
        (if protectionOnly cfg a then Tlb.poLookup cfg.tlb (lookupOf cfg a x) (viewOf cfg a x)
          else Tlb.pageLookup cfg.tlb (lookupOf cfg a x) (viewOf cfg a x))
        a.mmu602 x.kind x.fp := by
  have ht := @batTranslation cfg a x
  have hnone : ¬ ((List.range 4).any (Bat.entryMatch (batAccess (requestOf cfg a x) a.mmu602.wimg)
      fun i => a.banks.upper (!x.instruction) (BitVec.ofNat 2 i)) = true) := by
    rw [any_match]
    rintro ⟨i, hi⟩
    exact h.unblocked i hi
  rw [h.relocated, if_pos rfl, Bat.translateEnabled, if_neg hnone] at ht
  obtain ⟨hpriv, hunsup, hrej⟩ := @batAnswer_status cfg a (requestOf cfg a x)
  have hon : (if (requestOf cfg a x).instruction = true then (requestOf cfg a x).ir
      else (requestOf cfg a x).dr) = true := h.relocated
  have hclean : cleanBatPageMiss cfg (requestOf cfg a x)
      (batAnswer cfg a (requestOf cfg a x)) = true := by
    simp [cleanBatPageMiss, ht, hpriv, hunsup, hrej, hp.pageTranslation, hon]
  have hanswer : pageAnswer cfg a (requestOf cfg a x) (segmentWord cfg a x) =
      if protectionOnly cfg a then Tlb.poLookup cfg.tlb (lookupOf cfg a x) (viewOf cfg a x)
      else Tlb.pageLookup cfg.tlb (lookupOf cfg a x) (viewOf cfg a x) := by
    have hwrite : (!(lookupOf cfg a x).bank && (lookupOf cfg a x).write) = false := by
      cases hi : x.instruction with
      | false => simp [lookupOf, lookupRequest, requestOf, hi]
      | true => simp [lookupOf, lookupRequest, requestOf, hi, hlegal hi]
    have hpo : (cfg.tlb.has602 && (lookupOf cfg a x).po) = protectionOnly cfg a := by
      cases h6 : cfg.has602 <;>
        simp [Config.tlb, lookupOf, lookupRequest, requestOf, protectionOnly, h6]
    show Tlb.respond cfg.tlb (lookupOf cfg a x) (viewOf cfg a x) = _
    rw [Tlb.respond, show (lookupOf cfg a x).kind = .lookup from rfl]
    dsimp only
    rw [hwrite, if_neg Bool.false_ne_true, hpo]
  rw [outcome, ht, srWord_eq, hanswer]
  dsimp only
  rw [if_neg Bool.false_ne_true, if_pos hclean]

/-! ## Each reply of the TLB -/

section Causes

variable {q : Request} {sr : BitVec 32} {m : Mmu602} {kind : DmemKind} {fp : Bool}
  (hp : Production cfg)
include hp

/-- A direct-store segment. -/
theorem pageOutcome_directStore (ht : srT sr = true) :
    pageOutcome cfg q sr
      { kind := .lookup, bank := !q.instruction, ea := q.ea, directStore := true } m kind fp =
    if q.instruction then .fetchFault .isiGuarded default
    else if !cfg.hasDirectStore then .dataFault .dsiDirectStore default
    else if kind = .cache then .noop
    else if fp then .dataFault .alignmentDirectStore default
    else if kind = .normal then .directStore (dsAddress sr q.ea) (dsTag q sr)
    else .dataFault .dsiDirectStore default := by
  generalize ht' : ({ kind := .lookup, bank := !q.instruction, ea := q.ea, directStore := true } :
    Tlb.Response) = t
  have hclean : cleanPageDirectStore q sr t = true := by
    subst ht'
    simp [cleanPageDirectStore, pageReplyConfig, pageReplyForeign, pageFaults, ht]
  have hmiss : cleanPageMissBase cfg q sr t = false := by simp [cleanPageMissBase, ht]
  have hbase : cleanPageInstructionBase cfg q sr t = false := by
    simp [cleanPageInstructionBase, ht]
  have hallow : pageReplyAllow q t = false := by simp [pageReplyAllow, ← ht']
  have hpp : cleanPageDataPp cfg q t = false := by simp [cleanPageDataPp, ← ht']
  cases hx : q.instruction with
  | true =>
    simp [pageOutcome, hallow, dsRoute, dsCandidate, cleanPageDataDirectStore, pageDenial,
      pageTypedFault, cleanPageInstructionDirectStore, hclean, pageFetchFault, cleanPageTrueMiss,
      hmiss, cleanPageInstructionPp, hbase, shownMiss, hx, hp.pageInstructionExceptions]
  | false =>
    have hds : cleanPageDataDirectStore cfg q sr t = true := by
      simp [cleanPageDataDirectStore, hclean, hx, hp.pageDataExceptions]
    simp only [pageOutcome, hallow, dsRoute, dsCandidate, hds, pageDenial, pageDataFault, hpp, hx,
      shownMiss]
    cases hh : cfg.hasDirectStore <;> cases hk : kind <;> cases hf : fp <;> simp

/-- A segment that does not execute. -/
theorem pageOutcome_segmentNoExecute (ht : srT sr = false) (hn : srN sr = true)
    (hx : q.instruction = true) :
    pageOutcome cfg q sr
      { kind := .lookup, bank := !q.instruction, ea := q.ea, noExecute := true } m kind fp =
    .fetchFault .isiGuarded default := by
  simp [pageOutcome, pageReplyAllow, dsRoute, dsCandidate, cleanPageDataDirectStore, pageDenial,
    pageTypedFault, cleanPageInstructionNoExecute, cleanPageInstructionBase, pageReplyConfig,
    pageReplyForeign, pageFaults, pageFetchFault, cleanPageTrueMiss, cleanPageInstructionPp,
    shownMiss, ht, hn, hx, hp.pageInstructionExceptions]

/-- A miss. -/
theorem pageOutcome_miss (ht : srT sr = false) (hn : q.instruction = true → srN sr = false)
    (way : Bool) :
    let t : Tlb.Response :=
      { kind := .lookup, bank := !q.instruction, ea := q.ea, miss := true, way := way }
    pageOutcome cfg q sr t m kind fp =
      if q.instruction then .fetchFault .pageMiss (pageMissCapture q sr t)
      else .dataFault .pageMiss (pageMissCapture q sr t) := by
  intro t
  have hmiss : cleanPageTrueMiss cfg q sr t = true := by
    cases hx : q.instruction with
    | false =>
      simp [t, cleanPageTrueMiss, cleanPageMissBase, pageReplyConfig, pageReplyForeign, pageFaults,
        ht, hx, hp.pageMissResults]
    | true =>
      simp [t, cleanPageTrueMiss, cleanPageMissBase, pageReplyConfig, pageReplyForeign, pageFaults,
        ht, hx, hn hx, hp.pageMissResults]
  have hallow : pageReplyAllow q t = false := by simp [pageReplyAllow, t]
  have hds : cleanPageDataDirectStore cfg q sr t = false := by
    simp [cleanPageDataDirectStore, cleanPageDirectStore, ht]
  have hpp : cleanPageDataPp cfg q t = false := by simp [cleanPageDataPp, t]
  cases hx : q.instruction <;>
    simp [pageOutcome, hallow, dsRoute, dsCandidate, hds, pageDenial, pageTypedFault, hmiss,
      pageFetchFault, pageDataFault, hpp, shownMiss, pageMissResult, hx, hp.pageMissResults]

/-- A hit that is denied, with the causes shown. -/
structure DeniedHit (q : Request) (t : Tlb.Response) (protection guarded noExecute changed : Bool) :
    Prop where
  kind : t.kind = .lookup
  bank : t.bank = !q.instruction
  ea : t.ea = q.ea
  own : pageReplyForeign t = false
  hit : t.hit = true
  denied : t.allowAccess = false
  miss : t.miss = false
  directStore : t.directStore = false
  protectionFault : t.protectionFault = protection
  guardedFault : t.guardedFault = guarded
  noExecute : t.noExecute = noExecute
  needsChanged : t.needsChanged = changed

section Hits

variable {t : Tlb.Response} (ht : srT sr = false)
include ht

/-- A 602 page that does not execute. -/
theorem pageOutcome_noExecute (h : DeniedHit q t false false true false)
    (h6 : cfg.has602 = true) (hn : srN sr = false) (hx : q.instruction = true) :
    pageOutcome cfg q sr t m kind fp = .fetchFault .isiGuarded default := by
  have hbank := h.bank
  rw [hx] at hbank
  have hconfig : pageReplyConfig q t = false := by
    simp [pageReplyConfig, pageFaults, h.kind, hbank, h.ea, h.own, h.denied, h.noExecute, hx]
  have hbase : cleanPageInstructionBase cfg q sr t = true := by
    simp [cleanPageInstructionBase, hconfig, h.kind, hbank, h.ea, h.own, h.denied, h.miss,
      h.directStore, h.needsChanged, ht, hx, hp.pageInstructionExceptions]
  have htyped : pageTypedFault cfg q sr t = true := by
    simp [pageTypedFault, cleanPageInstructionPageNe, hbase, h6, hn, h.hit, h.noExecute,
      h.protectionFault, h.guardedFault, hx]
  have hmiss : cleanPageTrueMiss cfg q sr t = false := by simp [cleanPageTrueMiss, h.miss]
  simp [pageOutcome, pageReplyAllow, dsRoute, dsCandidate, cleanPageDataDirectStore, pageDenial,
    htyped, pageFetchFault, hmiss, cleanPageInstructionPp, shownMiss, h.denied, h.noExecute, hx]

/-- A denial by protection. -/
theorem pageOutcome_protection (h : DeniedHit q t true false false false)
    (hn : q.instruction = true → srN sr = false) :
    pageOutcome cfg q sr t m kind fp =
      if q.instruction then .fetchFault .isiProtection default
      else .dataFault .dsiProtection default := by
  have hconfig : pageReplyConfig q t = false := by
    simp [pageReplyConfig, pageFaults, h.kind, h.bank, h.ea, h.own, h.denied, h.protectionFault]
  have hmiss : cleanPageTrueMiss cfg q sr t = false := by simp [cleanPageTrueMiss, h.miss]
  have hbank := h.bank
  cases hx : q.instruction with
  | true =>
    rw [hx] at hbank
    have hbase : cleanPageInstructionBase cfg q sr t = true := by
      simp [cleanPageInstructionBase, hconfig, h.kind, hbank, h.ea, h.own, h.denied, h.miss,
        h.directStore, h.needsChanged, ht, hx, hp.pageInstructionExceptions]
    have hpp : cleanPageInstructionPp cfg q sr t = true := by
      simp [cleanPageInstructionPp, hbase, hn hx, h.hit, h.noExecute, h.protectionFault,
        h.guardedFault]
    simp [pageOutcome, pageReplyAllow, dsRoute, dsCandidate, cleanPageDataDirectStore, pageDenial,
      pageTypedFault, pageFetchFault, hmiss, hpp, shownMiss, h.denied, hx]
  | false =>
    rw [hx] at hbank
    have hpp : cleanPageDataPp cfg q t = true := by
      simp [cleanPageDataPp, hconfig, h.kind, hbank, h.ea, h.own, h.denied, h.miss, h.hit,
        h.directStore, h.needsChanged, h.noExecute, h.protectionFault, h.guardedFault, hx,
        hp.pageDataExceptions]
    simp [pageOutcome, pageReplyAllow, dsRoute, dsCandidate, cleanPageDataDirectStore,
      cleanPageDirectStore, pageDenial, pageDataFault, hpp, shownMiss, h.denied, ht, hx]

/-- A guarded page does not execute. -/
theorem pageOutcome_guarded (h : DeniedHit q t false true false false) (hn : srN sr = false)
    (hx : q.instruction = true) :
    pageOutcome cfg q sr t m kind fp = .fetchFault .isiGuarded default := by
  have hbank := h.bank
  rw [hx] at hbank
  have hconfig : pageReplyConfig q t = false := by
    simp [pageReplyConfig, pageFaults, h.kind, hbank, h.ea, h.own, h.denied, h.guardedFault, hx]
  have hbase : cleanPageInstructionBase cfg q sr t = true := by
    simp [cleanPageInstructionBase, hconfig, h.kind, hbank, h.ea, h.own, h.denied, h.miss,
      h.directStore, h.needsChanged, ht, hx, hp.pageInstructionExceptions]
  have htyped : pageTypedFault cfg q sr t = true := by
    simp [pageTypedFault, cleanPageInstructionGuarded, hbase, hn, h.hit, h.noExecute,
      h.protectionFault, h.guardedFault, hx]
  have hmiss : cleanPageTrueMiss cfg q sr t = false := by simp [cleanPageTrueMiss, h.miss]
  simp [pageOutcome, pageReplyAllow, dsRoute, dsCandidate, cleanPageDataDirectStore, pageDenial,
    htyped, pageFetchFault, hmiss, cleanPageInstructionPp, shownMiss, h.denied, h.guardedFault, hx]

/-- A store to a page that has not been changed. -/
theorem pageOutcome_changed (h : DeniedHit q t false false false true)
    (hx : q.instruction = false) (hw : q.write = true) (hmatch : t.matched = 1 ∨ t.matched = 2)
    (hway : t.way = t.matched.getLsbD 1) (hc : t.c = false) (hr : t.r = true) :
    pageOutcome cfg q sr t m kind fp = .dataFault .pageChanged (pageMissCapture q sr t) := by
  have hbank := h.bank
  rw [hx] at hbank
  have hconfig : pageReplyConfig q t = false := by
    simp [pageReplyConfig, pageFaults, h.kind, hbank, h.ea, h.own, h.denied, h.needsChanged, hx]
  have hbase : cleanPageMissBase cfg q sr t = true := by
    simp [cleanPageMissBase, hconfig, h.kind, hbank, h.ea, h.own, h.denied, h.directStore,
      h.noExecute, h.protectionFault, h.guardedFault, ht, hx, hp.pageMissResults]
  have hmatch' : (decide (t.matched = 1) || decide (t.matched = 2)) = true := by simpa using hmatch
  have hch : cleanPageChanged cfg q sr t = true := by
    rw [cleanPageChanged, hbase, hmatch', hway]
    simp [hx, hw, h.hit, h.miss, h.needsChanged, hc, hr]
  have hmiss : cleanPageTrueMiss cfg q sr t = false := by simp [cleanPageTrueMiss, h.miss]
  have hpp : cleanPageDataPp cfg q t = false := by simp [cleanPageDataPp, h.needsChanged]
  simp [pageOutcome, pageReplyAllow, dsRoute, dsCandidate, cleanPageDataDirectStore,
    cleanPageDirectStore, pageDenial, pageDataFault, hpp, hmiss, hch, h.denied, shownMiss,
    pageMissResult, ht, hx, hp.pageMissResults]

end Hits

omit hp in
/-- An access its reply allows. -/
theorem pageOutcome_allowed {t : Tlb.Response} (hkind : t.kind = .lookup)
    (hbank : t.bank = !q.instruction) (hea : t.ea = q.ea) (hown : pageReplyForeign t = false)
    (hhit : t.hit = true) (hallow : t.allowAccess = true) (hclear : pageFaults t = false) :
    pageOutcome cfg q sr t m kind fp = .allow t.pa (pageWimg q t m) t.esa := by
  have hok : pageReplyAllow q t = true := by
    simp [pageReplyAllow, pageReplyConfig, hkind, hbank, hea, hown, hhit, hallow, hclear]
  rw [pageOutcome, if_pos hok]

end Causes

/-- What the TLB reads of the entry that matches. -/
theorem selected_of_match (hd : WaysDistinct cfg a x) (hm : PageMatches cfg a x way) :
    Tlb.matched cfg.tlb (lookupOf cfg a x) (viewOf cfg a x) ≠ 0 ∧
      Tlb.matched cfg.tlb (lookupOf cfg a x) (viewOf cfg a x) ≠ 3 ∧
      Tlb.selectedEntry cfg.tlb (lookupOf cfg a x) (viewOf cfg a x) = pageEntry cfg a x way ∧
      (cfg.has602 = true → Tlb.selectedWord cfg.tlb (lookupOf cfg a x) (viewOf cfg a x) =
        rpaWord (pageEntry cfg a x way)) := by
  obtain ⟨hmatch, hway⟩ := matched_of_match hd hm
  have hentry : Tlb.selectedEntry cfg.tlb (lookupOf cfg a x) (viewOf cfg a x) =
      pageEntry cfg a x way := by
    rw [Tlb.selectedEntry, hway]
    rfl
  refine ⟨?_, ?_, hentry, ?_⟩
  · rw [hmatch]
    cases way <;> decide
  · rw [hmatch]
    cases way <;> decide
  · intro h6
    rw [Tlb.selectedWord, hentry, if_pos (show cfg.tlb.has602 = true from h6)]
    rfl

section Replies

variable (hp : Production cfg) (hlegal : x.instruction = true → x.write = false)
include hp hlegal

/-- A direct-store segment decides by the class of the access. -/
theorem outcome_segment (h : Paged cfg a x) (ht : srT (segmentWord cfg a x) = true) :
    outcome cfg a x = segmentOutcome cfg a x := by
  have hpo : protectionOnly cfg a = false := by
    rw [← Bool.not_eq_true]
    intro hpo
    exact Bool.false_ne_true ((segmentWord_po hpo).1.symm.trans ht)
  have hreply : Tlb.pageLookup cfg.tlb (lookupOf cfg a x) (viewOf cfg a x) =
      { kind := .lookup, bank := !x.instruction, ea := x.ea, directStore := true } := by
    rw [Tlb.pageLookup, if_pos (show (lookupOf cfg a x).t = true from ht)]
    rfl
  rw [outcome_paged hp hlegal h, hpo, if_neg Bool.false_ne_true, hreply]
  exact pageOutcome_directStore (q := requestOf cfg a x) hp ht

/-- A no-execute segment denies a fetch. -/
theorem outcome_noExecute (h : Paged cfg a x) (ht : srT (segmentWord cfg a x) = false)
    (hi : x.instruction = true) (hn : srN (segmentWord cfg a x) = true) :
    outcome cfg a x = .fetchFault .isiGuarded default := by
  have hpo : protectionOnly cfg a = false := by
    rw [← Bool.not_eq_true]
    intro hpo
    exact Bool.false_ne_true ((segmentWord_po hpo).2.symm.trans hn)
  have hbank : (lookupOf cfg a x).bank = !x.instruction := rfl
  have hnx : (!(lookupOf cfg a x).bank && (lookupOf cfg a x).n) = true := by
    rw [hbank, hi]
    exact hn
  have hreply : Tlb.pageLookup cfg.tlb (lookupOf cfg a x) (viewOf cfg a x) =
      { kind := .lookup, bank := !x.instruction, ea := x.ea, noExecute := true } := by
    have ht' : (lookupOf cfg a x).t = false := ht
    rw [Tlb.pageLookup, ht', if_neg Bool.false_ne_true, if_pos hnx]
    rfl
  rw [outcome_paged hp hlegal h, hpo, if_neg Bool.false_ne_true, hreply]
  exact pageOutcome_segmentNoExecute (q := requestOf cfg a x) hp ht hn hi

/-- Protection-only mode allows an access without a key. -/
theorem outcome_unkeyed (h : Paged cfg a x) (hpo : protectionOnly cfg a = true)
    (hk : segmentKey cfg a x = false) : outcome cfg a x =
      .allow x.ea a.mmu602.wimg (if x.instruction then .poBase else .denied) := by
  have hreply : Tlb.poLookup cfg.tlb (lookupOf cfg a x) (viewOf cfg a x) =
      Tlb.poBase (lookupOf cfg a x) := Tlb.poLookup_base hk
  rw [outcome_paged hp hlegal h, hpo, if_pos rfl, hreply,
    pageOutcome_allowed rfl rfl rfl rfl rfl rfl rfl, pageWimg,
    if_pos (show (requestOf cfg a x).po = true from hpo)]
  cases hi : x.instruction <;> simp [Tlb.poBase, lookupOf, lookupRequest, requestOf, hi]

/-- No entry is the page's. -/
theorem outcome_miss (h : Looked cfg a x) (hm : ∀ way, ¬ PageMatches cfg a x way) :
    outcome cfg a x = missOutcome cfg a x := by
  have hzero := matched_of_miss hm
  have hreply : (if protectionOnly cfg a = true then
        Tlb.poLookup cfg.tlb (lookupOf cfg a x) (viewOf cfg a x)
      else Tlb.pageLookup cfg.tlb (lookupOf cfg a x) (viewOf cfg a x)) =
      { kind := .lookup, bank := !x.instruction, ea := x.ea, miss := true
        way := a.tlb.lru (!x.instruction) (pageSet cfg a x) } := by
    cases hpo : protectionOnly cfg a with
    | true =>
      have hkey : Tlb.selectedKey (lookupOf cfg a x) = true := h.keyed hpo
      rw [if_pos rfl, Tlb.poLookup, hkey, Bool.not_true, if_neg Bool.false_ne_true, if_pos hzero]
      rfl
    | false =>
      have ht : (lookupOf cfg a x).t = false := h.memory
      have hn : (!(lookupOf cfg a x).bank && (lookupOf cfg a x).n) = false := by
        cases hi : x.instruction with
        | false => simp [lookupOf, lookupRequest, requestOf, hi]
        | true => exact Bool.and_eq_false_imp.2 fun _ => h.executable hi
      rw [if_neg Bool.false_ne_true, Tlb.pageLookup, ht, if_neg Bool.false_ne_true, hn,
        if_neg Bool.false_ne_true, if_pos hzero]
      rfl
  rw [outcome_paged hp hlegal h.toPaged, hreply]
  exact pageOutcome_miss (q := requestOf cfg a x) hp h.memory h.executable _

/-- The page's entry decides in protection-only mode. -/
theorem outcome_poEntry (h : Looked cfg a x) (hd : WaysDistinct cfg a x)
    (hm : PageMatches cfg a x way) (hpo : protectionOnly cfg a = true) :
    outcome cfg a x = protectedOutcome a x (pageEntry cfg a x way) := by
  have h6 : cfg.has602 = true := by
    simp only [protectionOnly, Bool.and_eq_true] at hpo
    exact hpo.1
  obtain ⟨hmiss, honce, -, hword⟩ := selected_of_match hd hm
  have hbit : Tlb.poBit cfg.tlb (lookupOf cfg a x) (viewOf cfg a x) =
      (rpaWord (pageEntry cfg a x way)).getLsbD (31 - (x.ea.extractLsb' 12 5).toNat) := by
    rw [Tlb.poBit, hword h6, show cfg.tlb.has602 = true from h6, Bool.true_and]
    rfl
  have hkey : Tlb.selectedKey (lookupOf cfg a x) = true := h.keyed hpo
  have hbank : (lookupOf cfg a x).bank = !x.instruction := rfl
  have hwrite : (lookupOf cfg a x).write = x.write := rfl
  have hwimg : (requestOf cfg a x).po = true := hpo
  rw [outcome_paged hp hlegal h.toPaged, hpo, if_pos rfl, Tlb.poLookup, hkey, Bool.not_true,
    if_neg Bool.false_ne_true, if_neg hmiss, if_neg honce, hbit, hbank, hwrite, protectedOutcome]
  cases hi : x.instruction with
  | true =>
    cases hb : (rpaWord (pageEntry cfg a x way)).getLsbD (31 - (x.ea.extractLsb' 12 5).toNat) with
    | true =>
      exact pageOutcome_noExecute hp h.memory
        ⟨rfl, rfl, rfl, rfl, rfl, rfl, rfl, rfl, rfl, rfl, rfl, rfl⟩ h6 (h.executable hi) hi
    | false =>
      refine (pageOutcome_allowed rfl rfl rfl rfl rfl rfl rfl).trans ?_
      rw [pageWimg, if_pos hwimg]
      rfl
  | false =>
    have hdata : (requestOf cfg a x).instruction = false := hi
    have hn : (requestOf cfg a x).instruction = true → srN (segmentWord cfg a x) = false :=
      fun hx => h.executable hx
    cases hb : x.write && !(rpaWord (pageEntry cfg a x way)).getLsbD
        (31 - (x.ea.extractLsb' 12 5).toNat) with
    | true =>
      simp only [Bool.not_false, Bool.not_true, Bool.false_and, Bool.true_and, hb,
        Bool.false_eq_true, if_false]
      refine (pageOutcome_protection hp h.memory
        ⟨rfl, rfl, rfl, rfl, rfl, rfl, rfl, rfl, rfl, rfl, rfl, rfl⟩ hn).trans ?_
      rw [if_neg (by simp [hdata]), if_pos trivial]
    | false =>
      simp only [Bool.not_false, Bool.not_true, Bool.false_and, Bool.true_and, hb,
        Bool.false_eq_true, if_false]
      refine (pageOutcome_allowed rfl rfl rfl rfl rfl rfl rfl).trans ?_
      rw [pageWimg, if_pos hwimg]
      rfl

/-- The page's entry decides. -/
theorem outcome_entry (h : Looked cfg a x) (hd : WaysDistinct cfg a x)
    (hm : PageMatches cfg a x way) (hpo : protectionOnly cfg a = false) :
    outcome cfg a x = entryOutcome cfg a x (pageEntry cfg a x way) way := by
  obtain ⟨hmatch, hway⟩ := matched_of_match hd hm
  obtain ⟨hmiss, honce, hentry, hword⟩ := selected_of_match hd hm
  have hne : Tlb.selectedNe cfg.tlb (lookupOf cfg a x) (viewOf cfg a x) =
      (cfg.has602 && (rpaWord (pageEntry cfg a x way)).getLsbD 10) := by
    cases h6 : cfg.has602 with
    | false => simp [Tlb.selectedNe, Config.tlb, h6]
    | true => rw [Tlb.selectedNe, hword h6, show cfg.tlb.has602 = true from h6]
  have hse : Tlb.selectedSe cfg.tlb (lookupOf cfg a x) (viewOf cfg a x) =
      (cfg.has602 && (rpaWord (pageEntry cfg a x way)).getLsbD 9) := by
    cases h6 : cfg.has602 with
    | false => simp [Tlb.selectedSe, Config.tlb, h6]
    | true => rw [Tlb.selectedSe, hword h6, show cfg.tlb.has602 = true from h6]
  have hdeny : Tlb.protectionDenied cfg.tlb (lookupOf cfg a x) (viewOf cfg a x) = true ↔
      PageDenies (segmentKey cfg a x) (pageEntry cfg a x way).pp x.write := by
    have hkey : Tlb.selectedKey (lookupOf cfg a x) = segmentKey cfg a x := rfl
    have hwrite : (lookupOf cfg a x).write = x.write := rfl
    simp [Tlb.protectionDenied, hentry, hkey, hwrite, PageDenies]
  have ht : (lookupOf cfg a x).t = false := h.memory
  have hn : (!(lookupOf cfg a x).bank && (lookupOf cfg a x).n) = false := by
    cases hi : x.instruction with
    | false => simp [lookupOf, lookupRequest, requestOf, hi]
    | true => exact Bool.and_eq_false_imp.2 fun _ => h.executable hi
  have hbank : (!(lookupOf cfg a x).bank) = x.instruction := by
    simp [lookupOf, lookupRequest, requestOf]
  have hwrite : (lookupOf cfg a x).write = x.write := rfl
  rw [outcome_paged hp hlegal h.toPaged, hpo, if_neg Bool.false_ne_true, Tlb.pageLookup, ht,
    if_neg Bool.false_ne_true, hn, if_neg Bool.false_ne_true, if_neg hmiss, if_neg honce, hne,
    hse, hbank, hentry, hwrite, entryOutcome]
  have hwimg : (requestOf cfg a x).po = false := hpo
  -- the causes, in their order
  by_cases hx : (cfg.has602 && x.instruction && (rpaWord (pageEntry cfg a x way)).getLsbD 10) = true
  · have hx' := hx
    simp only [Bool.and_eq_true] at hx'
    obtain ⟨⟨h6, hi⟩, hb⟩ := hx'
    rw [if_pos hx, if_pos (by simp [h6, hi, hb])]
    exact pageOutcome_noExecute hp h.memory
      ⟨rfl, rfl, rfl, rfl, rfl, rfl, rfl, rfl, rfl, rfl, rfl, rfl⟩ h6 (h.executable hi) hi
  rw [if_neg hx, if_neg (by simpa [and_comm, and_assoc, and_left_comm] using hx)]
  by_cases hp' : PageDenies (segmentKey cfg a x) (pageEntry cfg a x way).pp x.write
  · rw [if_pos hp', if_pos (hdeny.2 hp'), protectionFault]
    exact pageOutcome_protection hp h.memory
      ⟨rfl, rfl, rfl, rfl, rfl, rfl, rfl, rfl, rfl, rfl, rfl, rfl⟩ h.executable
  rw [if_neg hp', if_neg (mt hdeny.1 hp')]
  by_cases hg : (x.instruction && (pageEntry cfg a x way).wimg.getLsbD 0) = true
  · have hi : x.instruction = true := by
      simp only [Bool.and_eq_true] at hg
      exact hg.1
    rw [if_pos hg, if_pos hg]
    exact pageOutcome_guarded hp h.memory
      ⟨rfl, rfl, rfl, rfl, rfl, rfl, rfl, rfl, rfl, rfl, rfl, rfl⟩ (h.executable hi) hi
  rw [if_neg hg, if_neg hg]
  by_cases hc : (x.write && !(pageEntry cfg a x way).c) = true
  · have hc' := hc
    simp only [Bool.and_eq_true, Bool.not_eq_true'] at hc'
    have hi : x.instruction = false := by
      rw [← Bool.not_eq_true]
      intro hi
      exact Bool.false_ne_true ((hlegal hi).symm.trans hc'.1)
    rw [if_pos hc, if_pos hc]
    refine (pageOutcome_changed hp h.memory
      ⟨rfl, rfl, rfl, rfl, rfl, rfl, rfl, rfl, rfl, rfl, rfl, rfl⟩ hi hc'.1 ?_ ?_ hc'.2 rfl).trans ?_
    · show Tlb.matched cfg.tlb (lookupOf cfg a x) (viewOf cfg a x) = 1 ∨
        Tlb.matched cfg.tlb (lookupOf cfg a x) (viewOf cfg a x) = 2
      rw [hmatch]
      cases way <;> simp
    · show Tlb.selectedWay cfg.tlb (lookupOf cfg a x) (viewOf cfg a x) =
        (Tlb.matched cfg.tlb (lookupOf cfg a x) (viewOf cfg a x)).getLsbD 1
      rw [hmatch, hway]
      cases way <;> rfl
    · rw [capsule, ← hway]
      rfl
  rw [if_neg hc, if_neg hc]
  refine (pageOutcome_allowed rfl rfl rfl rfl rfl rfl rfl).trans ?_
  rw [pageWimg, hwimg, if_neg Bool.false_ne_true]
  have hesa : (x.instruction && (cfg.has602 && (rpaWord (pageEntry cfg a x way)).getLsbD 9)) =
      (cfg.has602 && x.instruction && (rpaWord (pageEntry cfg a x way)).getLsbD 9) := by
    rw [← Bool.and_assoc, Bool.and_comm x.instruction]
  simp only [hesa]
  rfl

end Replies

end Pages

end Router
end SloPPC603
