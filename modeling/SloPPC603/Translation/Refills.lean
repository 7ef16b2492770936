import SloPPC603.Translation.Tlb

/-!
# The TLB holds the refills

The settled requests of a run, in order, say what the TLB holds: a refill stays until
its set is invalidated, its way is loaded again or its page is.  A valid way holds
exactly such a refill, and a lookup is answered as if by it alone.

* `Live` — the refills of a log that have not been invalidated or replaced.
* `Holds`, `holds_run` — the store against the log, over a run.
* `tlb_holds_refills` — what lookups, misses and refills show.
-/

namespace SloPPC603
namespace Tlb

open Clocked

/-! ## Pages -/

/-- The virtual page of an entry: its segment, its tag and the 602's kind. -/
structure Page where
  vsid : BitVec 24
  tag : ℕ
  po : Bool
  deriving DecidableEq, Repr

/-- The page a request is about. -/
def pageOf (cfg : Config) (q : Request) : Page :=
  ⟨q.vsid, tagOf cfg q.ea q.po, cfg.has602 && q.po⟩

/-- The page an entry was loaded for. -/
def Entry.page (cfg : Config) (e : Entry) : Page :=
  ⟨e.vsid, e.pageTag, cfg.has602 && e.ext.getLsbD 5⟩

section Pages

variable {cfg : Config}

/-- A way matches when it is valid and holds the page. -/
theorem wayMatch_iff {q : Request} {v : View} {way : Bool} : wayMatch cfg q v way = true ↔
    v.valid way = true ∧ (v.entry way).page cfg = pageOf cfg q := by
  simp only [wayMatch, Entry.page, pageOf, Bool.and_eq_true, decide_eq_true_eq, Page.mk.injEq]
  cases hc : cfg.has602 with
  | false => simp [and_assoc]
  | true => simp [and_assoc]

@[simp] theorem page_refillEntry (q : Request) :
    (refillEntry cfg q).page cfg = pageOf cfg q := by
  simp only [Entry.page, refillEntry, pageOf, Page.mk.injEq, true_and]
  cases hc : cfg.has602 with
  | false => rfl
  | true =>
    simp only [Bool.true_and, if_pos]
    rw [BitVec.getLsbD_append]
    simp

end Pages

/-! ## The refills that are left -/

/-- The request loads an entry as it settles. -/
def isLoad (cfg : Config) (q : Request) : Bool :=
  (q.kind = .refill && !q.pr) || (q.kind = .prepareRefill && prepareAllowed cfg q)

/-- The request invalidates a set as it settles. -/
def isClear (cfg : Config) (q : Request) : Bool :=
  (q.kind = .invalidateSet && !q.pr) || (q.kind = .prepareInvalidate && prepareAllowed cfg q)

/-- The request `p` ends the refill `q`: it invalidates its set, or loads its way or
its page. -/
def Ends (cfg : Config) (q p : Request) : Prop :=
  (isClear cfg p = true ∧ setIndex cfg p = setIndex cfg q) ∨
    (isLoad cfg p = true ∧ p.bank = q.bank ∧ setIndex cfg p = setIndex cfg q ∧
      (p.way = q.way ∨ pageOf cfg p = pageOf cfg q))

/-- A refill of the log that nothing behind it has ended. -/
def Live (cfg : Config) (log : List Request) (q : Request) : Prop :=
  ∃ pre post, log = pre ++ q :: post ∧ isLoad cfg q = true ∧ ∀ p ∈ post, ¬ Ends cfg q p

section Log

variable {cfg : Config} {log : List Request} {p q : Request}

/-- No request both loads and invalidates. -/
theorem isClear_of_isLoad (h : isLoad cfg p = true) : isClear cfg p = false := by
  simp only [isLoad, Bool.or_eq_true, Bool.and_eq_true, decide_eq_true_eq] at h
  rcases h with ⟨hk, -⟩ | ⟨hk, -⟩ <;> simp [isClear, hk]

theorem not_live_nil : ¬ Live cfg [] q := by
  rintro ⟨pre, post, h, -⟩
  simp at h

/-- One more request: it is a refill itself, or leaves some of the others. -/
theorem live_snoc : Live cfg (log ++ [p]) q ↔
    (isLoad cfg p = true ∧ q = p) ∨ (Live cfg log q ∧ ¬ Ends cfg q p) := by
  constructor
  · rintro ⟨pre, post, heq, hload, hnone⟩
    rcases List.eq_nil_or_concat post with rfl | ⟨post, x, rfl⟩
    · left
      obtain ⟨-, hlast⟩ := List.append_inj' heq rfl
      simp only [List.cons.injEq, and_true] at hlast
      subst hlast
      exact ⟨hload, rfl⟩
    · right
      rw [List.concat_eq_append, ← List.cons_append, ← List.append_assoc] at heq
      obtain ⟨hlog, hlast⟩ := List.append_inj' heq rfl
      simp only [List.cons.injEq, and_true] at hlast
      subst hlast
      refine ⟨⟨pre, post, hlog, hload, ?_⟩, ?_⟩
      · intro y hy
        exact hnone y (by simp [hy])
      · exact hnone p (by simp)
  · rintro (⟨hload, rfl⟩ | ⟨⟨pre, post, rfl, hload, hnone⟩, hend⟩)
    · exact ⟨log, [], rfl, hload, by simp⟩
    · refine ⟨pre, post ++ [p], by simp, hload, ?_⟩
      intro y hy
      rcases List.mem_append.1 hy with hy | hy
      · exact hnone y hy
      · rw [List.mem_singleton.1 hy]
        exact hend

end Log

/-! ## The store against the log -/

/-- Every valid way holds a live refill, and every live refill is held; the two ways
of a set hold different pages. -/
structure Holds (cfg : Config) (t : Store) (log : List Request) : Prop where
  sound : ∀ bank way set, t.valid bank way set = true → ∃ q, Live cfg log q ∧ q.bank = bank ∧
    q.way = way ∧ setIndex cfg q = set ∧ t.entries bank way set = refillEntry cfg q
  complete : ∀ q, Live cfg log q → t.valid q.bank q.way (setIndex cfg q) = true ∧
    t.entries q.bank q.way (setIndex cfg q) = refillEntry cfg q
  distinct : ∀ bank set, t.valid bank false set = true → t.valid bank true set = true →
    (t.entries bank false set).page cfg ≠ (t.entries bank true set).page cfg

section Store

variable {cfg : Config} {t : Store} {log : List Request} {p : Request}

theorem holds_empty (h : ∀ bank way set, t.valid bank way set = false) : Holds cfg t [] where
  sound := by
    intro bank way set hv
    rw [h] at hv
    cases hv
  complete := fun q hq => absurd hq not_live_nil
  distinct := by
    intro bank set hv
    rw [h] at hv
    cases hv

theorem perform_load (h : isLoad cfg p = true) : (service cfg).perform p t = load cfg p t := by
  simp only [isLoad, Bool.or_eq_true, Bool.and_eq_true, decide_eq_true_eq,
    Bool.not_eq_true'] at h
  rcases h with ⟨hk, hpr⟩ | ⟨hk, hok⟩
  · simp [service, hk, hpr]
  · simp [service, hk, hok]

theorem perform_clear (h : isClear cfg p = true) :
    (service cfg).perform p t = t.clearSet (setIndex cfg p) := by
  simp only [isClear, Bool.or_eq_true, Bool.and_eq_true, decide_eq_true_eq,
    Bool.not_eq_true'] at h
  rcases h with ⟨hk, hpr⟩ | ⟨hk, hok⟩
  · simp [service, hk, hpr]
  · simp [service, hk, hok]

/-- Any other request leaves the entries and their valid bits. -/
theorem perform_other (hl : isLoad cfg p = false) (hc : isClear cfg p = false) :
    ((service cfg).perform p t).valid = t.valid ∧
      ((service cfg).perform p t).entries = t.entries := by
  simp only [service]
  cases hk : p.kind with
  | lookup =>
    dsimp only
    split_ifs <;> exact ⟨rfl, rfl⟩
  | refill =>
    have hpr : p.pr = true := by simpa [isLoad, hk] using hl
    simp [hpr]
  | invalidateSet =>
    have hpr : p.pr = true := by simpa [isClear, hk] using hc
    simp [hpr]
  | reserved => exact ⟨rfl, rfl⟩
  | prepareInvalidate =>
    have hno : prepareAllowed cfg p = false := by simpa [isClear, hk] using hc
    simp [hno]
  | prepareRefill =>
    have hno : prepareAllowed cfg p = false := by simpa [isLoad, hk] using hl
    simp [hno]
  | unlisted code => exact ⟨rfl, rfl⟩

/-- The entries after a load. -/
theorem load_entries (bank way : Bool) (set : ℕ) : (load cfg p t).entries bank way set =
    if bank = p.bank ∧ way = p.way ∧ set = setIndex cfg p then refillEntry cfg p
    else t.entries bank way set := rfl

/-- The valid bits after a load: the other way goes when it holds the same page. -/
theorem load_valid (bank way : Bool) (set : ℕ) : (load cfg p t).valid bank way set =
    if bank = p.bank ∧ way = p.way ∧ set = setIndex cfg p then true
    else if wayMatch cfg p (view cfg p t) (!p.way) = true ∧ bank = p.bank ∧ way = !p.way ∧
      set = setIndex cfg p then false
    else t.valid bank way set := rfl

/-- A valid way other than the one loaded does not hold the page loaded. -/
theorem page_ne_of_load {way : Bool} (hway : way = !p.way)
    (hv : (load cfg p t).valid p.bank way (setIndex cfg p) = true) :
    t.valid p.bank way (setIndex cfg p) = true ∧
      (t.entries p.bank way (setIndex cfg p)).page cfg ≠ pageOf cfg p := by
  subst hway
  rw [load_valid, if_neg (by simp)] at hv
  cases hm : wayMatch cfg p (view cfg p t) (!p.way) with
  | true =>
    rw [if_pos ⟨hm, rfl, rfl, rfl⟩] at hv
    cases hv
  | false =>
    rw [if_neg (by simp [hm])] at hv
    refine ⟨hv, ?_⟩
    intro hpage
    have hmatch := (@wayMatch_iff cfg p (view cfg p t) _).2 ⟨hv, hpage⟩
    rw [hm] at hmatch
    cases hmatch

theorem holds_load (h : Holds cfg t log) (hload : isLoad cfg p = true) :
    Holds cfg (load cfg p t) (log ++ [p]) where
  sound := by
    intro bank way set hv
    by_cases hhere : bank = p.bank ∧ way = p.way ∧ set = setIndex cfg p
    · obtain ⟨rfl, rfl, rfl⟩ := hhere
      refine ⟨p, live_snoc.2 (Or.inl ⟨hload, rfl⟩), rfl, rfl, rfl, ?_⟩
      rw [load_entries, if_pos ⟨rfl, rfl, rfl⟩]
    · have hold : t.valid bank way set = true := by
        rw [load_valid, if_neg hhere] at hv
        split_ifs at hv
        exact hv
      obtain ⟨q, hq, hbank, hway, hset, hentry⟩ := h.sound bank way set hold
      refine ⟨q, live_snoc.2 (Or.inr ⟨hq, ?_⟩), hbank, hway, hset, ?_⟩
      · rintro (⟨hclear, -⟩ | ⟨-, hb, hs, hsame⟩)
        · rw [isClear_of_isLoad hload] at hclear
          cases hclear
        · have hb' : bank = p.bank := hbank.symm.trans hb.symm
          have hs' : set = setIndex cfg p := hset.symm.trans hs.symm
          subst hb' hs'
          have hother : way = !p.way := by
            rw [Bool.eq_not]
            exact fun hw => hhere ⟨rfl, hw, rfl⟩
          rcases hsame with hw | hpage
          · exact hhere ⟨rfl, hway.symm.trans hw.symm, rfl⟩
          · obtain ⟨-, hne⟩ := page_ne_of_load hother hv
            rw [hentry, page_refillEntry] at hne
            exact hne hpage.symm
      · rw [load_entries, if_neg hhere, hentry]
  complete := by
    intro q hq
    rcases live_snoc.1 hq with ⟨-, rfl⟩ | ⟨hq, hend⟩
    · rw [load_valid, load_entries, if_pos ⟨rfl, rfl, rfl⟩, if_pos ⟨rfl, rfl, rfl⟩]
      exact ⟨rfl, rfl⟩
    · obtain ⟨hv, hentry⟩ := h.complete q hq
      have hnot : ¬ (q.bank = p.bank ∧ q.way = p.way ∧ setIndex cfg q = setIndex cfg p) := by
        rintro ⟨hb, hw, hs⟩
        exact hend (Or.inr ⟨hload, hb.symm, hs.symm, Or.inl hw.symm⟩)
      rw [load_valid, load_entries, if_neg hnot, if_neg hnot]
      refine ⟨?_, hentry⟩
      rw [if_neg ?_]
      · exact hv
      · rintro ⟨hmatch, hb, hw, hs⟩
        obtain ⟨-, hpage⟩ := wayMatch_iff.1 hmatch
        refine hend (Or.inr ⟨hload, hb.symm, hs.symm, Or.inr ?_⟩)
        have hsame : (view cfg p t).entry (!p.way) = refillEntry cfg q := by
          rw [← hentry, hb, hw, hs]
          rfl
        rw [hsame, page_refillEntry] at hpage
        exact hpage.symm
  distinct := by
    intro bank set h0 h1
    by_cases hhere : bank = p.bank ∧ set = setIndex cfg p
    · obtain ⟨rfl, rfl⟩ := hhere
      cases hw : p.way with
      | false =>
        obtain ⟨-, hne⟩ := page_ne_of_load (by simp [hw]) h1
        rw [load_entries, load_entries, if_pos ⟨rfl, hw.symm, rfl⟩, if_neg (by simp [hw]),
          page_refillEntry]
        exact hne.symm
      | true =>
        obtain ⟨-, hne⟩ := page_ne_of_load (by simp [hw]) h0
        rw [load_entries, load_entries, if_neg (by simp [hw]), if_pos ⟨rfl, hw.symm, rfl⟩,
          page_refillEntry]
        exact hne
    · have hvalid : ∀ way, (load cfg p t).valid bank way set = t.valid bank way set := by
        intro way
        rw [load_valid, if_neg (fun hc => hhere ⟨hc.1, hc.2.2⟩),
          if_neg (fun hc => hhere ⟨hc.2.1, hc.2.2.2⟩)]
      have hentry : ∀ way, (load cfg p t).entries bank way set = t.entries bank way set := by
        intro way
        rw [load_entries, if_neg (fun hc => hhere ⟨hc.1, hc.2.2⟩)]
      rw [hvalid] at h0 h1
      rw [hentry, hentry]
      exact h.distinct bank set h0 h1

theorem holds_clear (h : Holds cfg t log) (hclear : isClear cfg p = true) :
    Holds cfg (t.clearSet (setIndex cfg p)) (log ++ [p]) where
  sound := by
    intro bank way set hv
    simp only [Store.clearSet] at hv
    split_ifs at hv with hset
    obtain ⟨q, hq, hbank, hway, hqset, hentry⟩ := h.sound bank way set hv
    refine ⟨q, live_snoc.2 (Or.inr ⟨hq, ?_⟩), hbank, hway, hqset, hentry⟩
    rintro (⟨-, hs⟩ | ⟨hload, -⟩)
    · exact hset (hqset.symm.trans hs.symm)
    · rw [isClear_of_isLoad hload] at hclear
      cases hclear
  complete := by
    intro q hq
    rcases live_snoc.1 hq with ⟨hload, rfl⟩ | ⟨hq, hend⟩
    · rw [isClear_of_isLoad hload] at hclear
      cases hclear
    · have hset : setIndex cfg q ≠ setIndex cfg p := by
        intro hs
        exact hend (Or.inl ⟨hclear, hs.symm⟩)
      obtain ⟨hv, hentry⟩ := h.complete q hq
      refine ⟨?_, hentry⟩
      simp only [Store.clearSet]
      rw [if_neg hset]
      exact hv
  distinct := by
    intro bank set h0 h1
    simp only [Store.clearSet] at h0 h1
    split_ifs at h0 h1
    exact h.distinct bank set h0 h1

/-- **A request that settles keeps the store to the log.** -/
theorem holds_perform (h : Holds cfg t log) (p : Request) :
    Holds cfg ((service cfg).perform p t) (log ++ [p]) := by
  cases hl : isLoad cfg p with
  | true =>
    rw [perform_load hl]
    exact holds_load h hl
  | false =>
    cases hc : isClear cfg p with
    | true =>
      rw [perform_clear hc]
      exact holds_clear h hc
    | false =>
      obtain ⟨hv, he⟩ := perform_other (t := t) hl hc
      have hlive : ∀ q, Live cfg (log ++ [p]) q ↔ Live cfg log q := by
        intro q
        rw [live_snoc, hl]
        simp [Ends, hl, hc]
      refine ⟨?_, ?_, ?_⟩
      · intro bank way set
        rw [hv, he]
        simp only [hlive]
        exact h.sound bank way set
      · intro q hq
        rw [hv, he]
        exact h.complete q ((hlive q).1 hq)
      · rw [hv, he]
        exact h.distinct

/-- The store the settled requests make holds their refills. -/
theorem holds_foldl (h : ∀ bank way set, t.valid bank way set = false) (log : List Request) :
    Holds cfg (log.foldl (fun s r => (service cfg).perform r s) t) log := by
  induction log using List.reverseRecOn with
  | nil => exact holds_empty h
  | append_singleton log p ih =>
    rw [List.foldl_append]
    exact holds_perform ih p

end Store

/-! ## Answers -/

section Answers

variable {cfg : Config} {req : Request} {v v' : View}

/-- An answer looks at the ways that match and at the LRU bit. -/
theorem respond_congr (hmatch : ∀ way, wayMatch cfg req v way = wayMatch cfg req v' way)
    (hlru : v.lru = v'.lru)
    (hentry : ∀ way, wayMatch cfg req v way = true → v.entry way = v'.entry way) :
    respond cfg req v = respond cfg req v' := by
  have hm : matched cfg req v = matched cfg req v' := by
    rw [matched, matched, hmatch, hmatch]
  have hw : selectedWay cfg req v = selectedWay cfg req v' := hmatch true
  have hmiss : missResponse req v = missResponse req v' := by
    rw [missResponse, missResponse, hlru]
  -- the entry of a hit is the one of the way that matches
  have he : matched cfg req v ≠ 0 → selectedEntry cfg req v = selectedEntry cfg req v' := by
    intro hne
    rw [selectedEntry, selectedEntry, ← hw]
    apply hentry
    cases hsel : selectedWay cfg req v with
    | true => exact hsel
    | false =>
      have h1 : wayMatch cfg req v true = false := hsel
      by_contra h0
      rw [Bool.not_eq_true] at h0
      apply hne
      rw [matched, h1, h0]
      rfl
  by_cases hzero : matched cfg req v = 0
  · have hzero' : matched cfg req v' = 0 := hm ▸ hzero
    have hpo : poLookup cfg req v = poLookup cfg req v' := by
      rw [poLookup, poLookup, hzero, hzero', hmiss]
      rfl
    have hpage : pageLookup cfg req v = pageLookup cfg req v' := by
      rw [pageLookup, pageLookup, hzero, hzero', hmiss]
      rfl
    rw [respond, respond, hpo, hpage]
  · have hsel := he hzero
    have hword : selectedWord cfg req v = selectedWord cfg req v' := by
      rw [selectedWord, selectedWord, hsel]
    have hhit : hitResponse cfg req v = hitResponse cfg req v' := by
      rw [hitResponse, hitResponse, hm, hw]
    have hpo : poLookup cfg req v = poLookup cfg req v' := by
      rw [poLookup, poLookup, hm, hmiss, hhit, poBit, poBit, hword]
    have hpage : pageLookup cfg req v = pageLookup cfg req v' := by
      rw [pageLookup, pageLookup, hm, hmiss, hhit, hsel, selectedNe, selectedNe, selectedSe,
        selectedSe, hword, protectionDenied, protectionDenied, hsel]
    rw [respond, respond, hpo, hpage]

/-- The LRU bit only shows in a miss. -/
theorem respond_lru (hvalid : v'.valid = v.valid) (hentry : v'.entry = v.entry)
    (h : (respond cfg req v).hit = true) : respond cfg req v' = respond cfg req v := by
  obtain ⟨valid, entry, lru⟩ := v
  obtain ⟨valid', entry', lru'⟩ := v'
  dsimp only at hvalid hentry
  subst hvalid hentry
  unfold respond at h ⊢
  split at h
  · split_ifs at h ⊢
    · rfl
    · unfold poLookup at h ⊢
      dsimp only at h ⊢
      by_cases hkey : (!selectedKey req) = true
      · rw [if_pos hkey, if_pos hkey]
      rw [if_neg hkey] at h
      by_cases hzero : matched cfg req ⟨valid', entry', lru⟩ = 0
      · rw [if_pos hzero] at h
        cases h
      · rw [if_neg hkey, if_neg hkey, if_neg hzero]
        exact if_neg hzero
    · unfold pageLookup at h ⊢
      dsimp only at h ⊢
      by_cases ht : req.t = true
      · rw [if_pos ht, if_pos ht]
      by_cases hn : (!req.bank && req.n) = true
      · rw [if_neg ht, if_neg ht, if_pos hn, if_pos hn]
      rw [if_neg ht, if_neg hn] at h
      by_cases hzero : matched cfg req ⟨valid', entry', lru⟩ = 0
      · rw [if_pos hzero] at h
        cases h
      · rw [if_neg ht, if_neg ht, if_neg hn, if_neg hn, if_neg hzero]
        exact if_neg hzero
  all_goals rfl

theorem poLookup_of_miss (h : (poLookup cfg req v).miss = true) :
    (poLookup cfg req v).way = v.lru := by
  unfold poLookup at h ⊢
  dsimp only at h ⊢
  split_ifs at h ⊢
  all_goals first | rfl | cases h

theorem pageLookup_of_miss (h : (pageLookup cfg req v).miss = true) :
    (pageLookup cfg req v).way = v.lru := by
  unfold pageLookup at h ⊢
  dsimp only at h ⊢
  split_ifs at h ⊢
  all_goals first | rfl | cases h

/-- A miss reports the way the LRU bit names. -/
theorem way_of_miss (h : (respond cfg req v).miss = true) :
    (respond cfg req v).way = v.lru := by
  unfold respond at h ⊢
  cases hk : req.kind with
  | lookup =>
    rw [hk] at h
    dsimp only at h ⊢
    split_ifs at h ⊢
    · cases h
    · exact poLookup_of_miss h
    · exact pageLookup_of_miss h
  | prepareInvalidate =>
    rw [hk] at h
    dsimp only at h
    split_ifs at h <;> cases h
  | prepareRefill =>
    rw [hk] at h
    dsimp only at h
    split_ifs at h <;> cases h
  | refill =>
    rw [hk] at h
    cases h
  | invalidateSet =>
    rw [hk] at h
    cases h
  | reserved =>
    rw [hk] at h
    cases h
  | unlisted code =>
    rw [hk] at h
    cases h

/-- A set that holds one refill. -/
def oneEntry (cfg : Config) (q : Request) (lru : Bool) : View where
  valid := fun way => way = q.way
  entry := fun _ => refillEntry cfg q
  lru := lru

/-- A set that holds nothing. -/
def noEntry (lru : Bool) : View where
  valid := fun _ => false
  entry := fun _ => default
  lru := lru

/-- The refill is of the page a request looks up. -/
def Serves (cfg : Config) (req q : Request) : Prop :=
  q.bank = req.bank ∧ setIndex cfg q = setIndex cfg req ∧ pageOf cfg q = pageOf cfg req

variable {t : Store} {log : List Request}

/-- A way matches when it holds a live refill of the page. -/
theorem wayMatch_view (h : Holds cfg t log) (way : Bool) :
    wayMatch cfg req (view cfg req t) way = true ↔
      ∃ q, Live cfg log q ∧ Serves cfg req q ∧ q.way = way := by
  rw [wayMatch_iff]
  constructor
  · rintro ⟨hv, hpage⟩
    obtain ⟨q, hq, hbank, hway, hset, hentry⟩ := h.sound _ _ _ hv
    have hsame : (view cfg req t).entry way = refillEntry cfg q := hentry
    rw [hsame, page_refillEntry] at hpage
    exact ⟨q, hq, ⟨hbank, hset, hpage⟩, hway⟩
  · rintro ⟨q, hq, ⟨hbank, hset, hpage⟩, rfl⟩
    obtain ⟨hv, hentry⟩ := h.complete q hq
    rw [hbank, hset] at hv hentry
    refine ⟨hv, ?_⟩
    have hsame : (view cfg req t).entry q.way = refillEntry cfg q := hentry
    rw [hsame, page_refillEntry, hpage]

/-- A lookup hits at most one way. -/
theorem not_both_match (h : Holds cfg t log)
    (h0 : wayMatch cfg req (view cfg req t) false = true)
    (h1 : wayMatch cfg req (view cfg req t) true = true) : False := by
  obtain ⟨hv0, hp0⟩ := wayMatch_iff.1 h0
  obtain ⟨hv1, hp1⟩ := wayMatch_iff.1 h1
  exact h.distinct _ _ hv0 hv1 (hp0.trans hp1.symm)

/-- **A hit is answered by the live refill of the page alone.** -/
theorem respond_of_live (h : Holds cfg t log) {q : Request} (hq : Live cfg log q)
    (hserves : Serves cfg req q) : respond cfg req (view cfg req t) =
      respond cfg req (oneEntry cfg q (view cfg req t).lru) := by
  have hmatch := (wayMatch_view h q.way).2 ⟨q, hq, hserves, rfl⟩
  have hentry : (view cfg req t).entry q.way = refillEntry cfg q := by
    have he := (h.complete q hq).2
    rw [hserves.1, hserves.2.1] at he
    exact he
  have hother : ∀ way, wayMatch cfg req (view cfg req t) way = true → way = q.way := by
    intro way hw
    by_contra hne
    have hflip : way = !q.way := Bool.eq_not.2 hne
    subst hflip
    cases hqw : q.way with
    | false =>
      rw [hqw] at hmatch hw
      exact not_both_match h hmatch hw
    | true =>
      rw [hqw] at hmatch hw
      exact not_both_match h hw hmatch
  have hone : ∀ way, wayMatch cfg req (oneEntry cfg q (view cfg req t).lru) way =
      decide (way = q.way) := by
    intro way
    rw [Bool.eq_iff_iff, wayMatch_iff]
    simp only [oneEntry, page_refillEntry, hserves.2.2, and_true]
  apply respond_congr
  · intro way
    rw [hone, Bool.eq_iff_iff, decide_eq_true_eq]
    exact ⟨hother way, fun hw => hw ▸ hmatch⟩
  · rfl
  · intro way hw
    rw [hother way hw, hentry]
    rfl

/-- **A page with no live refill is answered as if the set were empty.** -/
theorem respond_of_none (h : Holds cfg t log)
    (hnone : ∀ q, Live cfg log q → ¬ Serves cfg req q) : respond cfg req (view cfg req t) =
      respond cfg req (noEntry (view cfg req t).lru) := by
  have hno : ∀ way, wayMatch cfg req (view cfg req t) way = false := by
    intro way
    by_contra hw
    obtain ⟨q, hq, hserves, -⟩ := (wayMatch_view h way).1 (by simpa using hw)
    exact hnone q hq hserves
  apply respond_congr
  · intro way
    rw [hno]
    symm
    rw [← Bool.not_eq_true, wayMatch_iff]
    simp [noEntry]
  · rfl
  · intro way hw
    rw [hno] at hw
    cases hw

end Answers

/-! ## Runs -/

section Runs

variable {cfg : Config}

/-- The requests settled in the first `n` edges since the last reset. -/
def settled (cfg : Config) (r : Run (machine cfg)) (n : ℕ) : List Request :=
  ((keeper cfg).ledger (service cfg) r n).settled

/-- The store a ledger starts from has nothing valid. -/
def InvalidBase (l : Ledger Store Request Response) : Prop :=
  ∀ bank way set, l.base.valid bank way set = false

theorem invalid_of_reset {s : State} {i : Input} (hrst : i.rstN = false) :
    ∀ bank way set, (step cfg s i).store.valid bank way set = false := by
  intro bank way set
  rw [step, hrst, if_neg Bool.false_ne_true, resetState, writeRam]
  split_ifs <;> rfl

/-- A ledger starts again with nothing valid. -/
theorem invalidBase_update {s : State} {i : Input} {l : Ledger Store Request Response}
    (hl : InvalidBase l) : InvalidBase (l.update (service cfg) (edge cfg s i)) := by
  cases hrst : i.rstN with
  | false =>
    have hbase : (l.update (service cfg) (edge cfg s i)).base = (step cfg s i).store := by
      simp [Ledger.update, edge, hrst]
    rw [InvalidBase, hbase]
    exact invalid_of_reset hrst
  | true =>
    have hbase : (l.update (service cfg) (edge cfg s i)).base = l.base := by
      simp only [Ledger.update, edge, hrst, Bool.not_true, Bool.false_eq_true, if_false]
      split_ifs <;> rfl
    rw [InvalidBase, hbase]
    exact hl

/-- A run starts, and starts again, with nothing valid. -/
theorem invalidBase_run (r : Run (machine cfg)) (n : ℕ) :
    InvalidBase ((keeper cfg).ledger (service cfg) r n) := by
  revert n
  apply Keeper.ledger_invariant (I := fun _ l => InvalidBase l)
  · rintro _ ⟨s₀, i, hrst, rfl⟩
    exact invalid_of_reset hrst
  · intro s l i hl
    exact invalidBase_update hl

/-- **The store holds the settled refills**, over a run. -/
theorem holds_run (r : Run (machine cfg)) (n : ℕ) :
    Holds cfg (r.state n).store (settled cfg r n) := by
  have hstore : (r.state n).store =
      ((keeper cfg).ledger (service cfg) r n).store (service cfg) := (inv_run r n).settles.store
  rw [hstore]
  exact holds_foldl (invalidBase_run r n) _

/-- A request that settles on an edge is performed on it. -/
theorem store_of_settled (r : Run (machine cfg)) {n : ℕ} {q : Request}
    (h : settled cfg r (n + 1) = settled cfg r n ++ [q]) :
    (r.state (n + 1)).store = (service cfg).perform q (r.state n).store := by
  have hbefore : (r.state n).store =
      ((keeper cfg).ledger (service cfg) r n).store (service cfg) := (inv_run r n).settles.store
  have hafter : (r.state (n + 1)).store =
      ((keeper cfg).ledger (service cfg) r (n + 1)).store (service cfg) :=
    (inv_run r (n + 1)).settles.store
  have hbase : ((keeper cfg).ledger (service cfg) r (n + 1)).base =
      ((keeper cfg).ledger (service cfg) r n).base := by
    rw [settled, settled, Keeper.ledger_succ] at h
    rw [Keeper.ledger_succ]
    simp only [Ledger.update, Ledger.nextSettled] at h ⊢
    split at h
    · simp at h
    all_goals
      rename_i hact
      simp only [hact]
  rw [settled, settled] at h
  rw [hafter, hbefore, Ledger.store, Ledger.store, hbase, h, List.foldl_append]
  rfl

/-- What a classified request is answered. -/
theorem response_of_lookup (r : Run (machine cfg)) {n : ℕ} (hl : (r.state n).lookup = true)
    (hrst : (r.input n).rstN = true) : (r.state (n + 1)).response =
      respond cfg (r.state n).request (view cfg (r.state n).request (r.state n).store) := by
  have hread := readView_eq (inv_run r n) hl
  rw [← hread]
  show (step cfg (r.state n) (r.input n)).response = _
  rw [step, hrst, if_pos rfl, runState, hl]
  rfl

/-- **The TLB is a cache of the refills.**  In every state of every run: the two valid
ways of a set hold different pages; a request is answered by the live refill of its
page alone, or as by an empty set if there is none; and a refill that names the way a
miss reported overwrites that way of that set and leaves the other. -/
theorem tlb_holds_refills (cfg : Config) (r : Run (machine cfg)) (n : ℕ) :
    (∀ bank set, (r.state n).store.valid bank false set = true →
      (r.state n).store.valid bank true set = true →
      ((r.state n).store.entries bank false set).page cfg ≠
        ((r.state n).store.entries bank true set).page cfg) ∧
    ((r.state n).lookup = true → (r.input n).rstN = true →
      (∀ q, Live cfg (settled cfg r n) q → Serves cfg (r.state n).request q →
        (r.state (n + 1)).response = respond cfg (r.state n).request (oneEntry cfg q
          ((r.state n).store.lru (r.state n).request.bank (setIndex cfg (r.state n).request)))) ∧
      ((∀ q, Live cfg (settled cfg r n) q → ¬ Serves cfg (r.state n).request q) →
        (r.state (n + 1)).response = respond cfg (r.state n).request (noEntry
          ((r.state n).store.lru (r.state n).request.bank
            (setIndex cfg (r.state n).request))))) ∧
    (∀ m ≤ n, (r.state m).lookup = true → (r.input m).rstN = true →
      (r.state (m + 1)).response.miss = true → ∀ q,
      settled cfg r (n + 1) = settled cfg r n ++ [q] → isLoad cfg q = true →
      q.bank = (r.state m).request.bank → setIndex cfg q = setIndex cfg (r.state m).request →
      q.way = (r.state (m + 1)).response.way →
      (r.state (m + 1)).response.way =
        (r.state m).store.lru (r.state m).request.bank (setIndex cfg (r.state m).request) ∧
      (r.state (n + 1)).store.valid q.bank (r.state (m + 1)).response.way
        (setIndex cfg q) = true ∧
      ∀ way, (r.state (n + 1)).store.entries q.bank way (setIndex cfg q) =
        if way = (r.state (m + 1)).response.way then refillEntry cfg q
        else (r.state n).store.entries q.bank way (setIndex cfg q)) := by
  have hholds := holds_run r n
  refine ⟨hholds.distinct, ?_, ?_⟩
  · intro hl hrst
    rw [response_of_lookup r hl hrst]
    exact ⟨fun q hq hserves => respond_of_live hholds hq hserves, respond_of_none hholds⟩
  · intro m _ hl hrst hmiss q hq hload _ _ hway
    refine ⟨?_, ?_, ?_⟩
    · rw [response_of_lookup r hl hrst] at hmiss ⊢
      exact way_of_miss hmiss
    · rw [store_of_settled r hq, perform_load hload, load_valid, ← hway,
        if_pos ⟨rfl, rfl, rfl⟩]
    · intro way
      rw [store_of_settled r hq, perform_load hload, load_entries, ← hway]
      by_cases hw : way = q.way
      · rw [if_pos ⟨rfl, hw, rfl⟩, if_pos hw]
      · rw [if_neg (fun hc => hw hc.2.1), if_neg hw]

end Runs

end Tlb
end SloPPC603
