import SloPPC603.Router.Repeats
import SloPPC603.Router.Touches

/-!
# What a micro-TLB hit leaves out

A request that hits a micro-TLB is not looked up in the TLB, so its LRU bit is not moved.
Nothing is lost: the bit already points away from the entry the micro-TLB repeats, because
it was moved when that entry was filled and a lookup that moves it again clears the
micro-TLB's entries of its set.

* `EntryPlaced`, `EntrySettled` — where an entry is from, and that its LRU bit has moved.
* `Settled`, `settled_run` — every valid entry's has, in every run.
* `iHit_settled`, `dHit_settled` — a hit would have moved nothing.
-/

namespace SloPPC603
namespace Router

open Clocked

/-! ## Touches of one page -/

section Page

variable {cfg : Config} {a : Arch} {x : Access} {q q' : Request} {sr sr' : BitVec 32}
  {ea : BitVec 32} {write : Bool} {kind : DmemKind} {fp : Bool}

/-- The set a request looks up. -/
theorem setIndex_requestOf (sr : BitVec 32) :
    Tlb.setIndex cfg.tlb (lookupRequest (requestOf cfg a x) sr) =
      requestSet cfg (requestOf cfg a x) := by
  have hpo : (cfg.tlb.has602 && (requestOf cfg a x).po) = (requestOf cfg a x).po := by
    cases h6 : cfg.has602 <;> simp [Config.tlb, requestOf, h6]
  have hlook : (lookupRequest (requestOf cfg a x) sr).po = (requestOf cfg a x).po := rfl
  rw [Tlb.setIndex, Tlb.setOf, hlook, hpo]
  rfl

/-- A page has one set. -/
theorem requestSet_page (h : SamePage q.ea ea) :
    requestSet cfg { q with ea := ea, write := write } = requestSet cfg q := by
  simp only [requestSet, h.extract (show 12 ≤ 12 by omega), h.extract (show 12 ≤ 17 by omega)]

/-- **An allowed access whose LRU bit has moved speaks for its page.** -/
theorem touchedBy_page {pa : BitVec 32} {wimg : BitVec 4} {esa : EsaEnable}
    (h : SamePage x.ea ea) (hlegal : (x.instruction && write) = false)
    (hallow : outcome cfg a x = .allow pa wimg esa)
    (hwrite : write = true → outcomeWriteOk cfg a x = true) (hself : touchedBy cfg a x = a) :
    touchedBy cfg a { x with ea := ea, write := write, kind := kind, fp := fp } = a := by
  have hq : requestOf cfg a { x with ea := ea, write := write, kind := kind, fp := fp } =
      { requestOf cfg a x with ea := ea, write := write } := rfl
  unfold touchedBy at hself ⊢
  unfold outcome at hallow
  unfold outcomeWriteOk at hwrite
  simp only [hq] at hself ⊢
  dsimp only at hallow hwrite
  by_cases hbat : (batAnswer cfg a (requestOf cfg a x)).translation.allow = true
  · simp only [hbat, if_true] at hwrite
    obtain ⟨ha, -, -, -⟩ := batAnswer_page (q := requestOf cfg a x) h hlegal hbat hwrite
    have hdirty : cleanBatPageMiss cfg { requestOf cfg a x with ea := ea, write := write }
        (batAnswer cfg a { requestOf cfg a x with ea := ea, write := write }) = false := by
      simp [cleanBatPageMiss, ha]
    rw [if_neg (by simp [hdirty])]
  · rw [if_neg hbat] at hallow
    by_cases hmiss : cleanBatPageMiss cfg (requestOf cfg a x)
        (batAnswer cfg a (requestOf cfg a x)) = true
    · rw [if_pos hmiss] at hself hallow
      obtain ⟨-, hmiss'⟩ := cleanBatPageMiss_page (q := requestOf cfg a x) h hlegal hmiss
      rw [if_pos hmiss', srWord_page (q := requestOf cfg a x) h]
      generalize hsr : srWord a (requestOf cfg a x) = sr at *
      have hpage : (pageAnswer cfg a (requestOf cfg a x) sr).allowAccess = true := by
        rw [pageOutcome, pageReplyAllow_eq] at hallow
        by_contra hno
        rw [if_neg hno] at hallow
        split_ifs at hallow
        exact absurd hallow (by simp [pageDenial]; split_ifs <;> simp)
      have hhit : (pageAnswer cfg a (requestOf cfg a x) sr).hit = true := by
        obtain ⟨-, ⟨-, -, heq⟩ | ⟨-, -, heq⟩ | ⟨-, -, heq⟩⟩ :=
          Tlb.respond_allowed (q := lookupRequest (requestOf cfg a x) sr) rfl hpage
        all_goals
          rw [pageAnswer, heq]
          rfl
      -- both look at the same ways of the same set
      have hrequest : lookupRequest { requestOf cfg a x with ea := ea, write := write } sr =
          { lookupRequest (requestOf cfg a x) sr with ea := ea, write := write } := rfl
      have hview := @Tlb.view_page cfg.tlb (lookupRequest (requestOf cfg a x) sr) ea write h a.tlb
      have hmatched := @Tlb.matched_page cfg.tlb (lookupRequest (requestOf cfg a x) sr)
        (Tlb.view cfg.tlb (lookupRequest (requestOf cfg a x) sr) a.tlb) ea write h
      have hway := @Tlb.wayMatch_page cfg.tlb (lookupRequest (requestOf cfg a x) sr)
        (Tlb.view cfg.tlb (lookupRequest (requestOf cfg a x) sr) a.tlb) ea write h true
      have hset : Tlb.setIndex cfg.tlb
          { lookupRequest (requestOf cfg a x) sr with ea := ea, write := write } =
            Tlb.setIndex cfg.tlb (lookupRequest (requestOf cfg a x) sr) :=
        @Tlb.setOf_page cfg.tlb (lookupRequest (requestOf cfg a x) sr) ea h _
      rw [touched_eq_self] at hself ⊢
      intro ht
      rw [touchesEntry, hrequest, hview, Tlb.touches, hmatched, Bool.and_eq_true] at ht
      have ht' : touchesEntry cfg a (requestOf cfg a x) sr = true := by
        rw [touchesEntry, Tlb.touches, Bool.and_eq_true]
        exact ⟨hhit, ht.2⟩
      rw [touchedWay, hrequest, hview, hset, Tlb.selectedWay, hway]
      exact hself ht'
    · rw [if_neg hmiss] at hallow
      exact absurd hallow (by simp [batDenial]; split_ifs <;> simp)

/-- A lookup elsewhere moves no LRU bit that has moved. -/
theorem touched_far
    (hfar : q'.instruction ≠ q.instruction ∨
      Tlb.setIndex cfg.tlb (lookupRequest q' sr') ≠ Tlb.setIndex cfg.tlb (lookupRequest q sr))
    (hself : touched cfg a q' sr' = a) :
    touched cfg (touched cfg a q sr) q' sr' = touched cfg a q sr := by
  have hlru : (touched cfg a q sr).tlb.lru (!q'.instruction)
      (Tlb.setIndex cfg.tlb (lookupRequest q' sr')) =
        a.tlb.lru (!q'.instruction) (Tlb.setIndex cfg.tlb (lookupRequest q' sr')) := by
    rw [touched_eq]
    split_ifs
    · simp only [Tlb.Store.touch]
      rw [if_neg]
      rintro ⟨hb, hs⟩
      rcases hfar with hne | hne
      · exact hne (by simpa using hb)
      · exact hne hs
    · rfl
  have hsame := (@sameFor_touched cfg a q sr).sameEntries
  have hview : Tlb.view cfg.tlb (lookupRequest q' sr') (touched cfg a q sr).tlb =
      Tlb.view cfg.tlb (lookupRequest q' sr') a.tlb := by
    simp only [Tlb.view, hsame.valid, hsame.entries]
    congr 1
  rw [touched_eq_self] at hself ⊢
  rw [touchesEntry, touchedWay, hview, hlru]
  exact hself

end Page

/-! ## Entries -/

/-- An access that hits an entry. -/
structure OnPage (instruction : Bool) (e : MicroTlb.Entry) (x : Access) : Prop where
  side : x.instruction = instruction
  legal : (instruction && x.write) = false
  page : x.ea.extractLsb' 12 20 = e.page
  write : x.write = true → e.writeOk = true

/-- An entry is from a block address entry, or from the TLB's set it names. -/
def EntryPlaced (cfg : Config) (a : Arch) (instruction : Bool) (e : MicroTlb.Entry) : Prop :=
  ∀ x, OnPage instruction e x →
    if e.fromTlb then requestSet cfg (requestOf cfg a x) = e.set
    else cleanBatPageMiss cfg (requestOf cfg a x) (batAnswer cfg a (requestOf cfg a x)) = false

/-- The LRU bit an access that hits an entry would move has moved. -/
def EntrySettled (cfg : Config) (a : Arch) (instruction : Bool) (e : MicroTlb.Entry) : Prop :=
  ∀ x, OnPage instruction e x → touchedBy cfg a x = a

section Entries

variable {cfg : Config} {a a' : Arch} {q : Request} {sr : BitVec 32} {instruction : Bool}
  {e : MicroTlb.Entry}

theorem EntryPlaced.same (h : EntryPlaced cfg a instruction e) (hsame : SameEntries a a') :
    EntryPlaced cfg a' instruction e := by
  intro x hx
  have hq : requestOf cfg a' x = requestOf cfg a x := by
    simp [requestOf, hsame.ir, hsame.dr, hsame.pr, hsame.mmu602]
  have hb : batAnswer cfg a' (requestOf cfg a x) = batAnswer cfg a (requestOf cfg a x) := by
    simp [batAnswer, hsame.banks, hsame.mmu602]
  rw [hq, hb]
  exact h x hx

/-- A lookup of another set, or of the other side, leaves an entry settled. -/
theorem EntrySettled.far (h : EntrySettled cfg a instruction e)
    (hplaced : EntryPlaced cfg a instruction e)
    (hfar : q.instruction ≠ instruction ∨ e.fromTlb = false ∨
      Tlb.setIndex cfg.tlb (lookupRequest q sr) ≠ e.set) :
    EntrySettled cfg (touched cfg a q sr) instruction e := by
  intro x hx
  have hself := h x hx
  have hplace := hplaced x hx
  have hsame := (@sameFor_touched cfg a q sr).sameEntries
  have hq : requestOf cfg (touched cfg a q sr) x = requestOf cfg a x := by
    simp [requestOf, hsame.ir, hsame.dr, hsame.pr, hsame.mmu602]
  have hb : batAnswer cfg (touched cfg a q sr) (requestOf cfg a x) =
      batAnswer cfg a (requestOf cfg a x) := by simp [batAnswer, hsame.banks, hsame.mmu602]
  have hsr : srWord (touched cfg a q sr) (requestOf cfg a x) =
      srWord a (requestOf cfg a x) := by simp [srWord, hsame.sr]
  simp only [touchedBy, hq, hb, hsr] at hself ⊢
  split_ifs at hself ⊢ with hclean
  · apply touched_far _ hself
    rcases hfar with hside | hbat | hset
    · left
      rw [show (requestOf cfg a x).instruction = x.instruction from rfl, hx.side]
      exact fun heq => hside heq.symm
    · rw [hbat, if_neg Bool.false_ne_true, hclean] at hplace
      cases hplace
    · right
      cases htlb : e.fromTlb with
      | false =>
        rw [htlb, if_neg Bool.false_ne_true, hclean] at hplace
        cases hplace
      | true =>
        rw [htlb, if_pos rfl] at hplace
        rw [setIndex_requestOf, hplace]
        exact hset.symm
  · rfl

end Entries

/-! ## The invariant -/

/-- The sequence has moved the LRU bit of an entry's set and now clears the entry. -/
def Clearing (cfg : Config) (s : State) (instruction : Bool) (e : MicroTlb.Entry) : Prop :=
  routeSetTouch s = true ∧ s.request.instruction = instruction ∧ e.fromTlb = true ∧
    e.set = requestSet cfg s.request

/-- Every entry of a micro-TLB is placed, and settled unless it is being cleared. -/
def UtlbSettled (cfg : Config) (s : State) (instruction : Bool) (t : MicroTlb.State) : Prop :=
  ∀ k, t.valid k = true → EntryPlaced cfg s.arch instruction (t.entry k) ∧
    (EntrySettled cfg s.arch instruction (t.entry k) ∨ Clearing cfg s instruction (t.entry k))

/-- The micro-TLBs are settled, and the lookup that is answered has moved its LRU bit. -/
structure Settles (cfg : Config) (s : State) : Prop where
  instruction : UtlbSettled cfg s true s.iUtlb
  data : UtlbSettled cfg s false s.dUtlb
  answered : s.route = .pageResponse → s.tlb.responseValid = true →
    touched cfg s.arch s.request s.pageSr = s.arch

section Step

variable {cfg : Config} {s : State} {i : Input}

/-- A lookup is answered on the next edge, and has moved its LRU bit. -/
theorem looked_up (hc : Ctrl cfg s) (h : Seq cfg s) (hrst : i.rstN = true)
    (hr : s.route = .pageResponse) (hl : s.tlb.lookup = true) :
    (runState cfg s i).route = .pageResponse ∧ (runState cfg s i).request = s.request ∧
      (runState cfg s i).pageSr = s.pageSr ∧ (runState cfg s i).tlb.responseValid = true ∧
      (runState cfg s i).arch = touched cfg s.arch s.request s.pageSr ∧
      (runState cfg s i).tlb.response = pageAnswer cfg s.arch s.request s.pageSr := by
  have hne : s.route ≠ .idle := by simp [hr]
  have hb := hc.busy hne
  obtain ⟨hreq, -⟩ := @slowAccess_step cfg s i hc hne
  obtain ⟨-, -, honce, -⟩ := busy_tlb hc hb
  have hrv : s.tlb.responseValid = false := by simpa [hl] using honce
  have harch := arch_unowned hc h hrst (hc.is_running hb) (hc.owner_none hb)
    (contextFire_of_busy hb)
  rw [step_run hrst, if_pos hl] at harch
  refine ⟨nextRoute_pageResponse.2 (Or.inr ⟨hr, hrv⟩), hreq, by simp [runState, hr], ?_, harch,
    pageSaid_step h hrst hr hl⟩
  show (Tlb.step cfg.tlb s.tlb (tlbInput cfg s i)).responseValid = true
  rw [Tlb.responseValid_step hrst, hl, Bool.true_or]

/-- Without a lookup a busy router keeps the committed state. -/
theorem arch_of_not_lookup (hc : Ctrl cfg s) (h : Seq cfg s) (hrst : i.rstN = true)
    (hr : s.route ≠ .idle) (hl : s.tlb.lookup = false) : (runState cfg s i).arch = s.arch := by
  have hb := hc.busy hr
  have harch := arch_unowned hc h hrst (hc.is_running hb) (hc.owner_none hb)
    (contextFire_of_busy hb)
  rw [step_run hrst, hl, if_neg Bool.false_ne_true] at harch
  exact harch

/-- What an edge does to the settled entries of a micro-TLB that is not flushed. -/
theorem settled_kept (hc : Ctrl cfg s) (h : Seq cfg s) (hrst : i.rstN = true)
    (hf : utlbFlush cfg s i = false) {instruction : Bool} {e : MicroTlb.Entry}
    (hplaced : EntryPlaced cfg s.arch instruction e)
    (hsettled : EntrySettled cfg s.arch instruction e) :
    EntrySettled cfg (runState cfg s i).arch instruction e ∨
      Clearing cfg (runState cfg s i) instruction e := by
  have harch := arch_not_utlbFlush hc h hrst hf
  rw [step_run hrst] at harch
  split_ifs at harch with hlook
  · simp only [Bool.and_eq_true, decide_eq_true_eq] at hlook
    obtain ⟨hroute, hreq, -, hrv, -, hresp⟩ := looked_up (i := i) hc h hrst hlook.2 hlook.1
    by_cases hfar : s.request.instruction ≠ instruction ∨ e.fromTlb = false ∨
        Tlb.setIndex cfg.tlb (lookupRequest s.request s.pageSr) ≠ e.set
    · left
      rw [harch]
      exact hsettled.far hplaced hfar
    · simp only [not_or, not_not, Bool.not_eq_false] at hfar
      obtain ⟨hside, htlb, hset⟩ := hfar
      by_cases ht : touchesEntry cfg s.arch s.request s.pageSr = true
      · right
        have hhit : (pageAnswer cfg s.arch s.request s.pageSr).hit = true := by
          simp only [touchesEntry, Tlb.touches, Bool.and_eq_true] at ht
          exact ht.1
        refine ⟨?_, by rw [hreq, hside], htlb, ?_⟩
        · simp [routeSetTouch, pageReply, hroute, hrv, hresp, hhit]
        · rw [hreq, h.taken (by simp [hlook.2]), ← setIndex_requestOf s.pageSr,
            ← h.taken (by simp [hlook.2]), hset]
      · left
        rw [harch, touched_eq, if_neg ht]
        exact hsettled
  · left
    rw [harch]
    exact hsettled

/-- The LRU bit of the lookup that is answered has moved, over an edge. -/
theorem answered_step (hc : Ctrl cfg s) (h : Seq cfg s) (hrst : i.rstN = true)
    (hr' : (runState cfg s i).route = .pageResponse)
    (hrv' : (runState cfg s i).tlb.responseValid = true) :
    touched cfg (runState cfg s i).arch (runState cfg s i).request (runState cfg s i).pageSr =
      (runState cfg s i).arch := by
  rcases nextRoute_pageResponse.1 hr' with ⟨hro, -⟩ | ⟨hro, hrv⟩
  · -- the request is only now taken
    have hb := hc.busy (show s.route ≠ .idle by simp [hro])
    obtain ⟨-, hrvT, -, -⟩ := busy_tlb hc hb
    rw [show decide (s.route = .pageResponse) = false by simp [hro], Bool.or_eq_false_iff] at hrvT
    have hrv'' : (Tlb.step cfg.tlb s.tlb (tlbInput cfg s i)).responseValid = true := hrv'
    rw [Tlb.responseValid_step hrst, hrvT.1, hrvT.2] at hrv''
    exact absurd hrv'' (by simp)
  · have hb := hc.busy (show s.route ≠ .idle by simp [hro])
    obtain ⟨-, hrvT, -, -⟩ := busy_tlb hc hb
    have hl : s.tlb.lookup = true := by simpa [hrv, hro] using hrvT
    obtain ⟨-, hreq, hsr, -, harch, -⟩ := looked_up (i := i) hc h hrst hro hl
    rw [hreq, hsr, harch, touched_touched]

/-- The allowed access in the sequence has moved its LRU bit. -/
theorem touchedBy_of_routeAllow (h : Seq cfg s) (hs : Settles cfg s)
    (ha : routeAllow s = true) : touchedBy cfg s.arch (slowAccess s) = s.arch := by
  simp only [routeAllow, batReply, pageReply, Bool.or_eq_true, Bool.and_eq_true,
    decide_eq_true_eq] at ha
  rcases ha with ⟨⟨hr, -⟩, ha⟩ | ⟨⟨hr, hv⟩, -⟩
  · rw [h.batSaid hr] at ha
    rw [touchedBy, ← h.taken (by simp [hr])]
    exact if_neg (by simp [cleanBatPageMiss, ha])
  · rw [touchedBy, ← h.taken (by simp [hr])]
    rw [if_pos (h.missed (by simp [hr, RouteState.paging])).2, ← h.word (Or.inr hr)]
    exact hs.answered hr hv

/-- A fill is placed and settled. -/
theorem fill_settled (h : Seq cfg s) (hs : Settles cfg s) (ha : routeAllow s = true)
    {e : MicroTlb.Entry} (hpage : e.page = s.request.ea.extractLsb' 12 20)
    (hset : e.set = requestSet cfg s.request) (htlb : e.fromTlb = routeFromTlb s)
    (hwrite : e.writeOk = true → routeWriteOk s = true) :
    EntryPlaced cfg s.arch s.request.instruction e ∧
      EntrySettled cfg s.arch s.request.instruction e := by
  have hq := h.taken (route_of_routeAllow ha)
  have hside : (slowAccess s).instruction = s.request.instruction := by rw [hq]; rfl
  have hea : (slowAccess s).ea = s.request.ea := by rw [hq]; rfl
  have hout := outcome_of_routeAllow h ha
  have hself := touchedBy_of_routeAllow h hs ha
  have hsame : ∀ {x}, OnPage s.request.instruction e x → SamePage (slowAccess s).ea x.ea := by
    intro x hx
    rw [hea]
    exact hpage.symm.trans hx.page.symm
  have hok : ∀ {x}, OnPage s.request.instruction e x → x.write = true →
      outcomeWriteOk cfg s.arch (slowAccess s) = true := by
    intro x hx hw
    rw [← routeWriteOk_eq h ha]
    exact hwrite (hx.write hw)
  constructor
  · intro x hx
    have hqx : requestOf cfg s.arch x =
        { requestOf cfg s.arch (slowAccess s) with ea := x.ea, write := x.write } := by
      simp only [requestOf, hside, hx.side]
    cases hr : routeFromTlb s with
    | true =>
      rw [htlb, hr, if_pos rfl, hset, hqx, hq]
      exact requestSet_page (q := requestOf cfg s.arch (slowAccess s)) (hsame hx)
    | false =>
      rw [htlb, hr, if_neg Bool.false_ne_true]
      have hbat : (batAnswer cfg s.arch (requestOf cfg s.arch (slowAccess s))).translation.allow
          = true := by
        simp only [routeFromTlb, decide_eq_false_iff_not] at hr
        simp only [routeAllow, batReply, pageReply, hr, decide_false, Bool.false_and,
          Bool.or_false, Bool.and_eq_true, decide_eq_true_eq] at ha
        rw [← hq, ← h.batSaid ha.1.1]
        exact ha.2
      have hwriteBat : x.write = true → batWriteOk (requestOf cfg s.arch (slowAccess s))
          (batAnswer cfg s.arch (requestOf cfg s.arch (slowAccess s))) = true := by
        intro hw
        have hok' := hok hx hw
        simp only [outcomeWriteOk, hbat, if_true] at hok'
        exact hok'
      have hlegal : ((requestOf cfg s.arch (slowAccess s)).instruction && x.write) = false := by
        rw [show (requestOf cfg s.arch (slowAccess s)).instruction = s.request.instruction from
          hside]
        exact hx.legal
      have hpage' : SamePage (requestOf cfg s.arch (slowAccess s)).ea x.ea := hsame hx
      obtain ⟨hallow, -, -, -⟩ := batAnswer_page hpage' hlegal hbat hwriteBat
      rw [hqx]
      simp [cleanBatPageMiss, hallow]
  · intro x hx
    have hpage' := @touchedBy_page cfg s.arch (slowAccess s) x.ea x.write x.kind x.fp _ _ _
      (hsame hx) (by rw [hside]; exact hx.legal) hout (hok hx) hself
    rw [hside, ← hx.side] at hpage'
    exact hpage'

/-- One micro-TLB stays settled over an edge. -/
theorem utlbSettled_step (hc : Ctrl cfg s) (h : Seq cfg s) (hs : Settles cfg s)
    (hrst : i.rstN = true) {instruction : Bool} {u : MicroTlb.Config} {t : MicroTlb.State}
    {j : MicroTlb.Input} (ht : UtlbSettled cfg s instruction t)
    (hflush : j.flush = utlbFlush cfg s i)
    (hset : j.setFlush = (routeSetTouch s && decide (s.request.instruction = instruction)) ∧
      j.setFlushIndex = requestSet cfg s.request)
    (hfill : j.fill = true → routeAllow s = true ∧ s.request.instruction = instruction ∧
      j.fillEntry.page = s.request.ea.extractLsb' 12 20 ∧
      j.fillEntry.set = requestSet cfg s.request ∧ j.fillEntry.fromTlb = routeFromTlb s ∧
      (j.fillEntry.writeOk = true → routeWriteOk s = true)) :
    UtlbSettled cfg (runState cfg s i) instruction (MicroTlb.step u t j) := by
  intro k hv
  obtain ⟨-, hf, ⟨hfilled, -, hentry⟩ | ⟨-, hold, hentry, hkept⟩⟩ := MicroTlb.valid_step hv
  · obtain ⟨ha, rfl, hpage, hset, htlb, hwrite⟩ := hfill hfilled
    obtain ⟨hplaced, hsettled⟩ := fill_settled h hs ha hpage hset htlb hwrite
    have harch : (runState cfg s i).arch = s.arch := by
      apply arch_of_not_lookup hc h hrst (route_of_routeAllow ha)
      obtain ⟨-, hrv, honce, -⟩ := busy_tlb hc (hc.busy (route_of_routeAllow ha))
      simp only [routeAllow, batReply, pageReply, Bool.or_eq_true, Bool.and_eq_true,
        decide_eq_true_eq] at ha
      rcases ha with ⟨⟨hr, -⟩, -⟩ | ⟨⟨-, hv⟩, -⟩
      · rw [show decide (s.route = .pageResponse) = false by simp [hr], Bool.or_eq_false_iff] at hrv
        exact hrv.1
      · simpa [hv] using honce
    rw [hentry, harch]
    exact ⟨hplaced, Or.inl hsettled⟩
  · rw [hflush] at hf
    obtain ⟨hplaced, hsettled⟩ := ht k hold
    have hsame := arch_of_not_utlbFlush hc h hrst hf
    rw [step_run hrst] at hsame
    rw [hentry]
    refine ⟨hplaced.same hsame, ?_⟩
    rcases hsettled with hsettled | ⟨htouch, hside, htlb, hidx⟩
    · exact settled_kept hc h hrst hf hplaced hsettled
    · -- its set is cleared on this edge
      have hclear : j.setFlush = true := by simp [hset.1, htouch, hside]
      exact absurd (hidx.trans hset.2.symm) (hkept hclear htlb)

/-- **Every entry of the micro-TLBs is settled**, over an edge. -/
theorem settles_step (hc : Ctrl cfg s) (h : Seq cfg s) (hs : Settles cfg s)
    (hrst : i.rstN = true) : Settles cfg (runState cfg s i) := by
  refine ⟨?_, ?_, answered_step hc h hrst⟩
  · apply utlbSettled_step hc h hs hrst hs.instruction rfl
    · exact ⟨by simp [iUtlbInput], rfl⟩
    · intro hfill
      simp only [iUtlbInput, Bool.and_eq_true] at hfill
      exact ⟨hfill.1.2, hfill.2, rfl, rfl, rfl, by simp [iUtlbInput]⟩
  · apply utlbSettled_step hc h hs hrst hs.data rfl
    · exact ⟨by simp [dUtlbInput], rfl⟩
    · intro hfill
      simp only [dUtlbInput, Bool.and_eq_true, Bool.not_eq_true'] at hfill
      exact ⟨hfill.1.2, hfill.2, rfl, rfl, rfl, fun hw => hw⟩

theorem settles_reset (hrst : i.rstN = false) : Settles cfg (step cfg s i) := by
  rw [step_reset hrst]
  have hempty : ∀ {u : MicroTlb.Config} {t : MicroTlb.State} {j : MicroTlb.Input},
      j.rstN = false → ∀ k, (MicroTlb.step u t j).valid k = true → False := by
    intro u t j hj k hv
    obtain ⟨hrst', -⟩ := MicroTlb.valid_step hv
    rw [hj] at hrst'
    exact Bool.false_ne_true hrst'
  exact ⟨fun k hv => (hempty hrst k hv).elim, fun k hv => (hempty hrst k hv).elim,
    fun hr => absurd hr (by simp [resetState])⟩

theorem settles_run (r : Run (machine cfg)) (n : ℕ) : Settles cfg (r.state n) :=
  along_run r (fun _ _ => settles_reset)
    (fun n hrst ih => settles_step (ctrl_run r n) (seq_run r n) ih hrst) n

end Step

/-! ## Hits -/

section Hits

variable {cfg : Config} {s : State} {i : Input} (hr : Repeats cfg s) (hs : Settles cfg s)
include hr hs

/-- **A fetch hit would have moved nothing.** -/
theorem iHit_settled (hq : s.request.instruction = true → routeSetTouch s = false)
    (hhit : iHit cfg s i = true) : touchedBy cfg s.arch (fetchAccess i.imemReqAddr) = s.arch := by
  simp only [iHit, Bool.and_eq_true] at hhit
  obtain ⟨k, -, hv, hpage, -⟩ := MicroTlb.hit_entry hr.instruction.once hhit.2
  rcases (hs.instruction k hv).2 with hset | ⟨htouch, hside, -⟩
  · exact hset _ ⟨rfl, rfl, hpage.symm, by simp [fetchAccess]⟩
  · rw [hq hside] at htouch
    cases htouch

/-- **A data hit would have moved nothing.** -/
theorem dHit_settled (hq : s.request.instruction = false → routeSetTouch s = false)
    (hv : i.dmemReqValid = true) (hproj : ProjectionAgrees cfg i)
    (hhit : dHit cfg s i = true) : touchedBy cfg s.arch i.dmemReq.access = s.arch := by
  simp only [dHit, Bool.and_eq_true] at hhit
  obtain ⟨k, -, hvk, hpage, hwrite, -⟩ := MicroTlb.hit_entry hr.data.once hhit.2
  have hpage' : i.dmemReq.access.ea.extractLsb' 12 20 = (s.dUtlb.entry k).page := by
    rw [hpage, MicroTlb.lookupPage]
    split_ifs with huse
    · simp only [Config.dUtlb, Bool.and_eq_true] at huse
      exact (hproj huse.1 hv huse.2).symm
    · rfl
  rcases (hs.data k hvk).2 with hset | ⟨htouch, hside, -⟩
  · exact hset _ ⟨rfl, rfl, hpage', hwrite⟩
  · rw [hq hside] at htouch
    cases htouch

end Hits

end Router
end SloPPC603
