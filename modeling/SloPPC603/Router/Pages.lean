import SloPPC603.Router.Outcome

/-!
# Outcomes of one page

Translation looks at the page of an address: what it allows at one address of a page it
allows at every other, at the same offset, and to a read as to a write.

* `Bat.translate_page` — the block address translator.
* `Tlb.respond_page` — the TLB.
* `outcome_page` — the router's outcomes.
* `outcome_lru` — an allowed access does not depend on the LRU bits.
-/

namespace SloPPC603

/-! ## Addresses of one page -/

/-- Two addresses are in one page. -/
def SamePage (a b : BitVec 32) : Prop := a.extractLsb' 12 20 = b.extractLsb' 12 20

section Addresses

variable {a b : BitVec 32} (h : SamePage a b)
include h

theorem SamePage.getLsbD {k : ℕ} (hk : 12 ≤ k) : a.getLsbD k = b.getLsbD k := by
  have hbit := congrArg (fun v => v.getLsbD (k - 12)) h
  simp only [BitVec.getLsbD_extractLsb'] at hbit
  by_cases hlt : k < 32
  · simpa [show k - 12 < 20 by omega, show 12 + (k - 12) = k by omega] using hbit
  · rw [BitVec.getLsbD_of_ge _ _ (by omega), BitVec.getLsbD_of_ge _ _ (by omega)]

theorem SamePage.extract {start : ℕ} (hs : 12 ≤ start) (len : ℕ) :
    a.extractLsb' start len = b.extractLsb' start len := by
  apply BitVec.eq_of_getLsbD_eq
  intro k hk
  simp only [BitVec.getLsbD_extractLsb', hk, decide_true, Bool.true_and]
  exact h.getLsbD (by omega)

end Addresses

/-- An address is its page and its offset. -/
theorem page_append (a : BitVec 32) : a.extractLsb' 12 20 ++ a.extractLsb' 0 12 = a := by
  apply BitVec.eq_of_getLsbD_eq
  intro k hk
  simp only [BitVec.getLsbD_append, BitVec.getLsbD_extractLsb']
  by_cases h : k < 12
  · simp [h]
  · simp [h, show k - 12 < 20 by omega, show 12 + (k - 12) = k by omega]

/-- The page of an address put together. -/
theorem extract_page (p : BitVec 20) (o : BitVec 12) : (p ++ o).extractLsb' 12 20 = p := by
  apply BitVec.eq_of_getLsbD_eq
  intro k hk
  rw [BitVec.getLsbD_extractLsb', BitVec.getLsbD_append, if_neg (by omega)]
  simp [hk]

/-- An address is known by its offset and the bits of its page. -/
theorem eq_page_append {a b c : BitVec 32} (hlow : ∀ k < 12, a.getLsbD k = c.getLsbD k)
    (hhigh : ∀ k, 12 ≤ k → k < 32 → a.getLsbD k = b.getLsbD k) :
    a = b.extractLsb' 12 20 ++ c.extractLsb' 0 12 := by
  apply BitVec.eq_of_getLsbD_eq
  intro k hk
  simp only [BitVec.getLsbD_append, BitVec.getLsbD_extractLsb']
  by_cases h : k < 12
  · simp [h, hlow k h]
  · simp [h, show k - 12 < 20 by omega, show 12 + (k - 12) = k by omega,
      hhigh k (by omega) (by omega)]

/-! ## The block address translator -/

namespace Bat

/-- A block is no smaller than 128 KiB. -/
theorem addressMask_low (u : BitVec 32) {k : ℕ} (hk : k < 17) :
    (addressMask u).getLsbD k = false := by
  have hones : (0x1ffff#17 : BitVec 17) = BitVec.allOnes 17 := by decide
  rw [addressMask, BitVec.getLsbD_not, BitVec.getLsbD_append, if_pos hk, hones,
    BitVec.getLsbD_allOnes]
  simp [hk]

theorem blockMask_low {k : ℕ} (hk : k < 17) :
    (0xfffe0000 : BitVec 32).getLsbD k = false := by
  have h : ∀ j : Fin 17, (0xfffe0000 : BitVec 32).getLsbD j = false := by decide
  exact h ⟨k, hk⟩

section Page

variable {cfg : TranslateConfig} {a : Access} {batu batl : ℕ → BitVec 32} {ea : BitVec 32}
  {write : Bool} (h : SamePage a.ea ea)
include h

theorem entryMatch_page :
    entryMatch { a with ea := ea, write := write } batu = entryMatch a batu := by
  funext i
  have hmask : ea &&& addressMask (batu i) = a.ea &&& addressMask (batu i) := by
    apply BitVec.eq_of_getLsbD_eq
    intro k hk
    simp only [BitVec.getLsbD_and]
    by_cases hlow : k < 17
    · simp [addressMask_low _ hlow]
    · rw [h.getLsbD (by omega)]
  simp only [entryMatch, hmask]

theorem winner_page (i : ℕ) :
    winner { a with ea := ea, write := write } batu i = winner a batu i := by
  simp only [winner, entryMatch_page h]

theorem ofWinner_page (f : ℕ → BitVec 32) :
    ofWinner { a with ea := ea, write := write } batu f = ofWinner a batu f := by
  simp only [ofWinner, winner_page h]

omit h in
/-- The winner's mask compares no bit below a block. -/
theorem ofWinner_mask_low {k : ℕ} (hk : k < 17) :
    (ofWinner a batu fun i => addressMask (batu i)).getLsbD k = false := by
  have hterm : ∀ j, (if winner a batu j then addressMask (batu j) else 0).getLsbD k = false := by
    intro j
    split_ifs
    · exact addressMask_low _ hk
    · simp
  simp only [ofWinner, List.range_succ, List.range_zero, List.nil_append, List.foldl_append,
    List.foldl_cons, List.foldl_nil, BitVec.getLsbD_or, hterm]
  simp

omit h in
/-- With no bank to validate, a legal access is translated or bypassed. -/
theorem translate_eq (hbank : cfg.validateBank = false) (hvalid : a.valid = true)
    (hlegal : (a.instruction && a.write) = false) : translate cfg a batu batl =
      if (if a.instruction then a.msrIr else a.msrDr) then translateEnabled cfg a batu batl
      else translateBypass cfg a := by
  have hbad : ∀ i, bad cfg a.instruction (batu i) (batl i) = false := by
    intro i
    simp [bad, hbank]
  simp only [translate, hvalid, hbad, overlaps, hbank, hlegal, Bool.not_true, Bool.false_and]
  simp

omit h in
/-- Protection that allows a write allows a read. -/
theorem allow_write {pp : BitVec 2} {w w' guarded : Bool}
    (hallow : (!(decide (pp = 0) || (w && decide (pp ≠ 2))) && !guarded) = true)
    (hwrite : w' = true → w = true ∨ pp = 2) :
    (!(decide (pp = 0) || (w' && decide (pp ≠ 2))) && !guarded) = true := by
  cases w' with
  | false =>
    simp only [Bool.and_eq_true, Bool.not_eq_true', Bool.or_eq_false_iff] at hallow
    simp only [hallow.1.1, hallow.2, Bool.false_and, Bool.or_self, Bool.not_false, Bool.and_self]
  | true =>
    rcases hwrite rfl with hw | hpp
    · subst hw
      exact hallow
    · simp only [Bool.and_eq_true, Bool.not_eq_true'] at hallow
      simp [hpp, hallow.2]

/-- **A hit that allows one address of a page allows the others**, and a write too where
the protection does. -/
theorem translateHit_page (hallow : (translateHit cfg a batu batl).allow = true)
    (hwrite : write = true → a.write = true ∨ (translateHit cfg a batu batl).pp = 2) :
    let r := translateHit cfg a batu batl
    let r' := translateHit cfg { a with ea := ea, write := write } batu batl
    r'.allow = true ∧ r'.wimg = r.wimg ∧ r'.se = r.se ∧
      r'.pa = r.pa.extractLsb' 12 20 ++ ea.extractLsb' 0 12 := by
  simp only [translateHit] at hallow hwrite
  have hallow' := allow_write hallow hwrite
  simp only [translateHit, ofWinner_page h, hallow, hallow', if_true, true_and]
  apply eq_page_append
  · intro k hk
    simp only [BitVec.getLsbD_or, BitVec.getLsbD_and, BitVec.getLsbD_not,
      blockMask_low (show k < 17 by omega), ofWinner_mask_low (show k < 17 by omega)]
    simp [show k < 32 by omega]
  · intro k hk hlt
    simp only [BitVec.getLsbD_or, BitVec.getLsbD_and, h.getLsbD hk]

/-- **What the translator allows at one address of a page it allows at the others.** -/
theorem translate_page (hbank : cfg.validateBank = false) (hvalid : a.valid = true)
    (hlegal : (a.instruction && a.write) = false) (hlegal' : (a.instruction && write) = false)
    (hallow : (translate cfg a batu batl).allow = true)
    (hwrite : write = true → a.write = true ∨ (translate cfg a batu batl).bypass = true ∨
      ((translate cfg a batu batl).batHit = true ∧ (translate cfg a batu batl).pp = 2)) :
    let r := translate cfg a batu batl
    let r' := translate cfg { a with ea := ea, write := write } batu batl
    r'.allow = true ∧ r'.wimg = r.wimg ∧ r'.se = r.se ∧
      r'.pa = r.pa.extractLsb' 12 20 ++ ea.extractLsb' 0 12 := by
  have heq := @translate_eq cfg a batu batl hbank hvalid hlegal
  have heq' := @translate_eq cfg { a with ea := ea, write := write } batu batl hbank hvalid hlegal'
  rw [heq] at hallow hwrite ⊢
  rw [heq']
  dsimp only at *
  by_cases hen : (if a.instruction = true then a.msrIr else a.msrDr) = true
  · rw [if_pos hen] at hallow hwrite ⊢
    rw [if_pos hen]
    unfold translateEnabled at hallow hwrite ⊢
    simp only [entryMatch_page h]
    split_ifs at hallow hwrite ⊢ with hany
    · have hbypass : (translateHit cfg a batu batl).bypass = false := rfl
      apply translateHit_page h hallow
      intro hw
      rcases hwrite hw with hx | hx | hx
      · exact Or.inl hx
      · rw [hbypass] at hx
        cases hx
      · exact Or.inr hx.2
  · rw [if_neg hen, if_neg hen]
    refine ⟨rfl, rfl, rfl, ?_⟩
    have hpage : a.ea.extractLsb' 12 20 = ea.extractLsb' 12 20 := h
    show ea = a.ea.extractLsb' 12 20 ++ _
    rw [hpage, page_append]

/-- A miss is a miss for the whole page. -/
theorem translate_page_miss (hbank : cfg.validateBank = false) (hvalid : a.valid = true)
    (hlegal : (a.instruction && a.write) = false) (hlegal' : (a.instruction && write) = false)
    (hmiss : (translate cfg a batu batl).batMiss = true) :
    translate cfg { a with ea := ea, write := write } batu batl = translate cfg a batu batl := by
  have heq := @translate_eq cfg a batu batl hbank hvalid hlegal
  have heq' := @translate_eq cfg { a with ea := ea, write := write } batu batl hbank hvalid hlegal'
  rw [heq] at hmiss ⊢
  rw [heq']
  dsimp only at *
  by_cases hen : (if a.instruction = true then a.msrIr else a.msrDr) = true
  · rw [if_pos hen] at hmiss ⊢
    rw [if_pos hen]
    unfold translateEnabled at hmiss ⊢
    simp only [entryMatch_page h]
    split_ifs at hmiss ⊢ with hany
    · exact absurd hmiss (by simp [translateHit])
    · rfl
  · rw [if_neg hen] at hmiss
    exact absurd hmiss (by simp [translateBypass])

omit h in
/-- Only an instruction entry gives a 602 permission. -/
theorem translate_se (hbank : cfg.validateBank = false) (hvalid : a.valid = true)
    (hi : a.instruction = false) : (translate cfg a batu batl).se = false := by
  rw [translate_eq hbank hvalid (by simp [hi])]
  by_cases hen : (if a.instruction = true then a.msrIr else a.msrDr) = true
  · rw [if_pos hen, translateEnabled]
    by_cases hany : (List.range 4).any (entryMatch a batu) = true
    · rw [if_pos hany]
      simp [translateHit, hi]
    · rw [if_neg hany]
  · rw [if_neg hen]
    rfl

end Page

end Bat

/-! ## The TLB -/

namespace Tlb

/-- What a page lookup needs to allow an access. -/
structure PageAllows (cfg : Config) (q : Request) (v : View) : Prop where
  t : q.t = false
  n : (!q.bank && q.n) = false
  hit : matched cfg q v ≠ 0
  once : matched cfg q v ≠ 3
  ne : (!q.bank && selectedNe cfg q v) = false
  permitted : protectionDenied cfg q v = false
  guarded : (!q.bank && (selectedEntry cfg q v).wimg.getLsbD 0) = false
  changed : (q.write && !(selectedEntry cfg q v).c) = false

/-- What a protection-only lookup needs to allow an access by its entry. -/
structure PoAllows (cfg : Config) (q : Request) (v : View) : Prop where
  key : selectedKey q = true
  hit : matched cfg q v ≠ 0
  once : matched cfg q v ≠ 3
  execute : (!q.bank && poBit cfg q v) = false
  store : (q.bank && q.write && !poBit cfg q v) = false

/-- The response of an allowed page lookup. -/
def pageAllowed (cfg : Config) (q : Request) (v : View) : Response :=
  let e := selectedEntry cfg q v
  { hitResponse cfg q v with
    wimg := e.wimg, pp := e.pp, c := e.c, allowAccess := true
    pa := e.rpn ++ q.ea.extractLsb' 0 12
    esa := if !q.bank && selectedSe cfg q v then .allowed else .denied }

/-- The response of a protection-only lookup that its entry allows. -/
def poAllowed (cfg : Config) (q : Request) (v : View) : Response :=
  { hitResponse cfg q v with
    c := true, allowAccess := true, pa := q.ea, esa := if !q.bank then .poSer else .denied }

/-- The response of a protection-only lookup that needs no entry. -/
def poBase (q : Request) : Response :=
  { plain q with
    hit := true, allowAccess := true, pa := q.ea, r := true, c := true
    esa := if !q.bank then .poBase else .denied }

section Allow

variable {cfg : Config} {q : Request} {v : View}

theorem pageLookup_allowed (h : PageAllows cfg q v) :
    pageLookup cfg q v = pageAllowed cfg q v := by
  simp only [pageLookup, h.t, h.n, h.hit, h.once, h.ne, h.permitted, h.guarded, h.changed,
    Bool.false_eq_true, if_false]
  rfl

/-- What is allowed did not stop at a check before. -/
theorem allow_else {c : Prop} [Decidable c] {r r' : Response} (hr : r.allowAccess = false)
    (h : (if c then r else r').allowAccess = true) : ¬ c ∧ r'.allowAccess = true := by
  by_cases hc : c
  · rw [if_pos hc, hr] at h
    cases h
  · rw [if_neg hc] at h
    exact ⟨hc, h⟩

theorem pageAllows_of (h : (pageLookup cfg q v).allowAccess = true) : PageAllows cfg q v := by
  obtain ⟨ht, h⟩ := allow_else rfl h
  obtain ⟨hn, h⟩ := allow_else rfl h
  obtain ⟨hhit, h⟩ := allow_else rfl h
  obtain ⟨honce, h⟩ := allow_else rfl h
  obtain ⟨hne, h⟩ := allow_else rfl h
  obtain ⟨hperm, h⟩ := allow_else rfl h
  obtain ⟨hguard, h⟩ := allow_else rfl h
  obtain ⟨hc, -⟩ := allow_else rfl h
  exact ⟨by simpa using ht, by simpa using hn, hhit, honce, by simpa using hne,
    by simpa using hperm, by simpa using hguard, by simpa using hc⟩

theorem poLookup_allowed (h : PoAllows cfg q v) : poLookup cfg q v = poAllowed cfg q v := by
  simp only [poLookup, h.key, h.hit, h.once, h.execute, h.store, Bool.not_true,
    Bool.false_eq_true, if_false]
  rfl

theorem poLookup_base (h : selectedKey q = false) : poLookup cfg q v = poBase q := by
  simp [poLookup, h, poBase]

theorem poAllows_of (h : (poLookup cfg q v).allowAccess = true) :
    selectedKey q = false ∨ PoAllows cfg q v := by
  cases hkey : selectedKey q with
  | false => exact Or.inl rfl
  | true =>
    rw [poLookup, if_neg (by simp [hkey])] at h
    obtain ⟨hhit, h⟩ := allow_else rfl h
    obtain ⟨honce, h⟩ := allow_else rfl h
    obtain ⟨hexec, h⟩ := allow_else rfl h
    obtain ⟨hstore, -⟩ := allow_else rfl h
    exact Or.inr ⟨hkey, hhit, honce, by simpa using hexec, by simpa using hstore⟩

/-- An allowed lookup is one of three. -/
theorem respond_allowed (hk : q.kind = .lookup) (h : (respond cfg q v).allowAccess = true) :
    (!q.bank && q.write) = false ∧
      (((cfg.has602 && q.po) = true ∧ selectedKey q = false ∧ respond cfg q v = poBase q) ∨
        ((cfg.has602 && q.po) = true ∧ PoAllows cfg q v ∧ respond cfg q v = poAllowed cfg q v) ∨
        ((cfg.has602 && q.po) = false ∧ PageAllows cfg q v ∧
          respond cfg q v = pageAllowed cfg q v)) := by
  simp only [respond, hk] at h ⊢
  split_ifs at h ⊢ with hbad hpo
  · cases h
  · refine ⟨by simpa using hbad, ?_⟩
    rcases poAllows_of h with hkey | hall
    · exact Or.inl ⟨hpo, hkey, poLookup_base hkey⟩
    · exact Or.inr (Or.inl ⟨hpo, hall, poLookup_allowed hall⟩)
  · refine ⟨by simpa using hbad, Or.inr (Or.inr ⟨by simpa using hpo, ?_⟩)⟩
    have hall := pageAllows_of h
    exact ⟨hall, pageLookup_allowed hall⟩

end Allow

section Page

variable {cfg : Config} {q : Request} {v : View} {ea : BitVec 32} {write : Bool}
  (h : SamePage q.ea ea)
include h

theorem setOf_page (po : Bool) : setOf cfg ea po = setOf cfg q.ea po := by
  simp only [setOf, h.extract (show 12 ≤ 12 by omega), h.extract (show 12 ≤ 17 by omega)]

theorem tagOf_page (po : Bool) : tagOf cfg ea po = tagOf cfg q.ea po := by
  simp only [tagOf, h.extract (show 12 ≤ 21 by omega), h.extract (show 12 ≤ 12 + cfg.setW by omega)]

theorem view_page (t : Store) :
    view cfg { q with ea := ea, write := write } t = view cfg q t := by
  simp only [view, setIndex, setOf_page h]

theorem wayMatch_page (way : Bool) :
    wayMatch cfg { q with ea := ea, write := write } v way = wayMatch cfg q v way := by
  simp only [wayMatch, tagOf_page h]

theorem matched_page :
    matched cfg { q with ea := ea, write := write } v = matched cfg q v := by
  simp only [matched, wayMatch_page h]

theorem selectedEntry_page :
    selectedEntry cfg { q with ea := ea, write := write } v = selectedEntry cfg q v := by
  simp only [selectedEntry, selectedWay, wayMatch_page h]

theorem selectedWord_page :
    selectedWord cfg { q with ea := ea, write := write } v = selectedWord cfg q v := by
  simp only [selectedWord, selectedEntry_page h]

theorem poBit_page : poBit cfg { q with ea := ea, write := write } v = poBit cfg q v := by
  simp only [poBit, selectedWord_page h, h.extract (show 12 ≤ 12 by omega)]

/-- An entry that allows one address of a page allows the others. -/
theorem pageAllows_page (hall : PageAllows cfg q v)
    (hwrite : write = true → q.write = true ∨ ((selectedEntry cfg q v).c = true ∧
      (selectedEntry cfg q v).pp ≠ 3 ∧
      ¬ (selectedKey q = true ∧ (selectedEntry cfg q v).pp ≠ 2))) :
    PageAllows cfg { q with ea := ea, write := write } v := by
  refine ⟨hall.t, hall.n, by rw [matched_page h]; exact hall.hit,
    by rw [matched_page h]; exact hall.once, ?_, ?_, ?_, ?_⟩
  · simpa only [selectedNe, selectedWord_page h] using hall.ne
  · have hperm := hall.permitted
    simp only [protectionDenied, selectedEntry_page h, Bool.or_eq_false_iff] at hperm ⊢
    refine ⟨hperm.1, ?_⟩
    cases hw : write with
    | false => rfl
    | true =>
      rcases hwrite hw with hq | ⟨-, hro, hkey⟩
      · rw [hq] at hperm
        exact hperm.2
      · rw [decide_eq_false hro, Bool.true_and, Bool.false_or]
        cases hk : selectedKey q with
        | false => exact Bool.and_eq_false_imp.2 fun hk' => by cases hk.symm.trans hk'
        | true =>
          have htwo : (selectedEntry cfg q v).pp = 2 := by
            by_contra hne
            exact hkey ⟨hk, hne⟩
          rw [htwo]
          exact Bool.and_false _
  · simpa only [selectedEntry_page h] using hall.guarded
  · rw [selectedEntry_page h]
    cases hw : write with
    | false => rfl
    | true =>
      rcases hwrite hw with hq | ⟨hc, -, -⟩
      · have hchanged := hall.changed
        rw [hq] at hchanged
        exact hchanged
      · simp [hc]

/-- An entry that allows one address of a protection-only page allows the others. -/
theorem poAllows_page (hall : PoAllows cfg q v) (hwrite : write = true → q.write = true) :
    PoAllows cfg { q with ea := ea, write := write } v := by
  refine ⟨hall.key, by rw [matched_page h]; exact hall.hit,
    by rw [matched_page h]; exact hall.once, by rw [poBit_page h]; exact hall.execute, ?_⟩
  rw [poBit_page h]
  cases hw : write with
  | false => simp
  | true =>
    have hstore := hall.store
    rw [hwrite hw] at hstore
    exact hstore

/-- **What the TLB allows at one address of a page it allows at the others**, and a write
too where the protection and the changed bit do. -/
theorem respond_page (hk : q.kind = .lookup) (hlegal : (!q.bank && write) = false)
    (hallow : (respond cfg q v).allowAccess = true)
    (hwrite : write = true → q.write = true ∨ (q.po = false ∧ (respond cfg q v).c = true ∧
      (respond cfg q v).pp ≠ 3 ∧ ¬ (selectedKey q = true ∧ (respond cfg q v).pp ≠ 2))) :
    let r := respond cfg q v
    let r' := respond cfg { q with ea := ea, write := write } v
    r'.allowAccess = true ∧ r'.wimg = r.wimg ∧ r'.esa = r.esa ∧
      r'.pa = r.pa.extractLsb' 12 20 ++ ea.extractLsb' 0 12 := by
  have hpa : ea = q.ea.extractLsb' 12 20 ++ ea.extractLsb' 0 12 := by
    rw [show q.ea.extractLsb' 12 20 = ea.extractLsb' 12 20 from h, page_append]
  have hrespond : respond cfg { q with ea := ea, write := write } v =
      if (cfg.has602 && q.po) = true then poLookup cfg { q with ea := ea, write := write } v
      else pageLookup cfg { q with ea := ea, write := write } v := by
    simp [respond, hk, hlegal]
  obtain ⟨-, ⟨hpo, hkey, heq⟩ | ⟨hpo, hall, heq⟩ | ⟨hpo, hall, heq⟩⟩ := respond_allowed hk hallow
  · -- no entry is read
    have hkey' : selectedKey { q with ea := ea, write := write } = false := hkey
    rw [hrespond, if_pos hpo, heq, poLookup_base hkey']
    exact ⟨rfl, rfl, rfl, hpa⟩
  · have hw : write = true → q.write = true := by
      intro hw
      rcases hwrite hw with hq | ⟨hq, -⟩
      · exact hq
      · rw [hq, Bool.and_false] at hpo
        cases hpo
    rw [hrespond, if_pos hpo, heq, poLookup_allowed (poAllows_page h hall hw)]
    exact ⟨rfl, rfl, rfl, hpa⟩
  · have hw : write = true → q.write = true ∨ ((selectedEntry cfg q v).c = true ∧
        (selectedEntry cfg q v).pp ≠ 3 ∧
        ¬ (selectedKey q = true ∧ (selectedEntry cfg q v).pp ≠ 2)) := by
      intro hw
      rw [heq] at hwrite
      exact (hwrite hw).imp_right And.right
    rw [hrespond, if_neg (by simp [hpo]), heq,
      pageLookup_allowed (pageAllows_page h hall hw)]
    refine ⟨rfl, ?_, ?_, ?_⟩
    · simp only [pageAllowed, selectedEntry_page h]
    · simp only [pageAllowed, selectedSe, selectedWord_page h]
      rfl
    · simp only [pageAllowed, selectedEntry_page h]
      rw [show (((selectedEntry cfg q v).rpn ++ q.ea.extractLsb' 0 12 : BitVec 32)).extractLsb' 12 20
        = (selectedEntry cfg q v).rpn from extract_page _ _]

end Page

end Tlb

/-! ## The router's outcomes -/

namespace Router

/-- A write to the page of an access would be allowed too. -/
def outcomeWriteOk (cfg : Config) (a : Arch) (x : Access) : Bool :=
  let q := requestOf cfg a x
  let b := batAnswer cfg a q
  if b.translation.allow then batWriteOk q b
  else pageWriteOk q (srWord a q) (pageAnswer cfg a q (srWord a q))

section Outcomes

variable {cfg : Config} {a : Arch} {x : Access} {q : Request} {sr : BitVec 32} {ea : BitVec 32}
  {write : Bool} {kind : DmemKind} {fp : Bool}

/-- What the sequence asks the translator for. -/
def batAccess (q : Request) (wimg : BitVec 4) : Bat.Access where
  valid := true
  instruction := q.instruction
  write := !q.instruction && q.write
  ea := q.ea
  msrIr := q.ir
  msrDr := q.dr
  msrPr := q.pr
  defaultWimg := wimg

theorem batAnswer_translation : (batAnswer cfg a q).translation =
    Bat.translate { validateBank := false, has602 := cfg.has602 } (batAccess q a.mmu602.wimg)
      (fun i => a.banks.upper (!q.instruction) (BitVec.ofNat 2 i))
      (fun i => a.banks.lower (!q.instruction) (BitVec.ofNat 2 i)) := by
  cases hi : q.instruction <;> cases hw : q.write <;>
    simp [batAnswer, Bat.response, batRequest, Bat.translationRequest, Bat.translation,
      Bat.access, batAccess, Config.bat, hi, hw]

/-- The rest of a block address reply to the sequence. -/
theorem batAnswer_status : (batAnswer cfg a q).privileged = false ∧
    (batAnswer cfg a q).unsupported = false ∧ (batAnswer cfg a q).writeRejected = false := by
  cases hi : q.instruction <;> cases hw : q.write <;>
    simp [batAnswer, Bat.response, batRequest, Bat.translationRequest, hi, hw]

/-- An allowed lookup is clean. -/
theorem pageReplyAllow_eq :
    pageReplyAllow q (pageAnswer cfg a q sr) = (pageAnswer cfg a q sr).allowAccess := by
  cases hallow : (pageAnswer cfg a q sr).allowAccess with
  | false => simp [pageReplyAllow, hallow]
  | true =>
    obtain ⟨-, ⟨-, -, heq⟩ | ⟨-, -, heq⟩ | ⟨-, -, heq⟩⟩ :=
      Tlb.respond_allowed (q := lookupRequest q sr) rfl hallow
    all_goals
      rw [pageAnswer, heq]
      simp [pageReplyAllow, pageReplyConfig, pageReplyForeign, pageFaults, Tlb.poBase,
        Tlb.poAllowed, Tlb.pageAllowed, Tlb.hitResponse, Tlb.plain, lookupRequest]

/-- A page has one segment register. -/
theorem srWord_page (h : SamePage q.ea ea) :
    srWord a { q with ea := ea, write := write } = srWord a q := by
  have hseg : (segmentEa { q with ea := ea, write := write }).extractLsb' 28 4 =
      (segmentEa q).extractLsb' 28 4 := by
    unfold segmentEa
    cases hpo : q.po with
    | false => simpa using (h.extract (show 12 ≤ 28 by omega) 4).symm
    | true =>
      have htop : ∀ v : BitVec 28, (0#4 ++ v).extractLsb' 28 4 = 0#4 := by
        intro v
        apply BitVec.eq_of_getLsbD_eq
        intro k hk
        rw [BitVec.getLsbD_extractLsb', BitVec.getLsbD_append, if_neg (by omega)]
        simp
      simp only [if_true, htop]
  simp only [srWord, hseg, pageSr]

/-- What a block address register allows at one address of a page. -/
theorem batAnswer_page (h : SamePage q.ea ea) (hlegal : (q.instruction && write) = false)
    (hallow : (batAnswer cfg a q).translation.allow = true)
    (hwrite : write = true → batWriteOk q (batAnswer cfg a q) = true) :
    let r := batAnswer cfg a q
    let r' := batAnswer cfg a { q with ea := ea, write := write }
    r'.translation.allow = true ∧ r'.translation.wimg = r.translation.wimg ∧
      batEsa r' = batEsa r ∧
      r'.translation.pa = r.translation.pa.extractLsb' 12 20 ++ ea.extractLsb' 0 12 := by
  have hw : (!q.instruction && write) = write := by
    cases hi : q.instruction <;> simp_all
  have hacc : batAccess { q with ea := ea, write := write } a.mmu602.wimg =
      { batAccess q a.mmu602.wimg with ea := ea, write := write } := by
    simp only [batAccess, hw]
  have hpage := @Bat.translate_page { validateBank := false, has602 := cfg.has602 }
    (batAccess q a.mmu602.wimg) (fun i => a.banks.upper (!q.instruction) (BitVec.ofNat 2 i))
    (fun i => a.banks.lower (!q.instruction) (BitVec.ofNat 2 i)) ea write h rfl rfl
    (by cases hi : q.instruction <;> simp [batAccess, hi]) hlegal
  rw [← batAnswer_translation] at hpage
  obtain ⟨ha, hwimg, hse, hpa⟩ := hpage hallow (by
    intro hw'
    have hok := hwrite hw'
    simp only [batWriteOk, Bool.or_eq_true, Bool.and_eq_true, decide_eq_true_eq] at hok
    rcases hok with (hq | hb) | hb
    · have hi : q.instruction = false := by simpa [hw'] using hlegal
      exact Or.inl (by simp [batAccess, hi, hq])
    · exact Or.inr (Or.inl hb)
    · exact Or.inr (Or.inr hb))
  dsimp only
  rw [batEsa, batEsa, batAnswer_translation (q := { q with ea := ea, write := write }), hacc]
  refine ⟨ha, hwimg, ?_, hpa⟩
  rw [← hse]

/-- A miss of the block address registers is one for the whole page. -/
theorem batAnswer_page_miss (h : SamePage q.ea ea) (hlegal : (q.instruction && write) = false)
    (hmiss : (batAnswer cfg a q).translation.batMiss = true) :
    (batAnswer cfg a { q with ea := ea, write := write }).translation =
      (batAnswer cfg a q).translation := by
  have hw : (!q.instruction && write) = write := by
    cases hi : q.instruction <;> simp_all
  have hacc : batAccess { q with ea := ea, write := write } a.mmu602.wimg =
      { batAccess q a.mmu602.wimg with ea := ea, write := write } := by
    simp only [batAccess, hw]
  rw [batAnswer_translation (q := { q with ea := ea, write := write }), hacc]
  rw [batAnswer_translation] at hmiss ⊢
  exact Bat.translate_page_miss (a := batAccess q a.mmu602.wimg) h rfl rfl
    (by cases hi : q.instruction <;> simp [batAccess, hi]) hlegal hmiss

/-- A clean miss stays clean. -/
theorem cleanBatPageMiss_page (h : SamePage q.ea ea)
    (hlegal : (q.instruction && write) = false)
    (hclean : cleanBatPageMiss cfg q (batAnswer cfg a q) = true) :
    (batAnswer cfg a { q with ea := ea, write := write }).translation.allow = false ∧
      cleanBatPageMiss cfg { q with ea := ea, write := write }
        (batAnswer cfg a { q with ea := ea, write := write }) = true := by
  have hmiss : (batAnswer cfg a q).translation.batMiss = true := by
    simp only [cleanBatPageMiss, Bool.and_eq_true] at hclean
    tauto
  have heq := batAnswer_page_miss h hlegal hmiss
  obtain ⟨hp, hu, hr⟩ := @batAnswer_status cfg a q
  obtain ⟨hp', hu', hr'⟩ := @batAnswer_status cfg a { q with ea := ea, write := write }
  have hclean' : cleanBatPageMiss cfg { q with ea := ea, write := write }
      (batAnswer cfg a { q with ea := ea, write := write }) = true := by
    simp only [cleanBatPageMiss, heq, hp, hu, hr, hp', hu', hr'] at hclean ⊢
    exact hclean
  refine ⟨?_, hclean'⟩
  simp only [cleanBatPageMiss, Bool.and_eq_true, Bool.not_eq_true'] at hclean'
  tauto

/-- What a TLB entry allows at one address of a page. -/
theorem pageAnswer_page (h : SamePage q.ea ea) (hlegal : (q.instruction && write) = false)
    (hallow : (pageAnswer cfg a q sr).allowAccess = true)
    (hwrite : write = true → pageWriteOk q sr (pageAnswer cfg a q sr) = true) :
    let r := pageAnswer cfg a q sr
    let r' := pageAnswer cfg a { q with ea := ea, write := write } sr
    r'.allowAccess = true ∧ r'.wimg = r.wimg ∧ r'.esa = r.esa ∧
      r'.pa = r.pa.extractLsb' 12 20 ++ ea.extractLsb' 0 12 := by
  have hrequest : lookupRequest { q with ea := ea, write := write } sr =
      { lookupRequest q sr with ea := ea, write := write } := rfl
  have hview : Tlb.view cfg.tlb (lookupRequest { q with ea := ea, write := write } sr) a.tlb =
      Tlb.view cfg.tlb (lookupRequest q sr) a.tlb := by
    rw [hrequest]
    exact Tlb.view_page (q := lookupRequest q sr) h a.tlb
  have hpage := @Tlb.respond_page cfg.tlb (lookupRequest q sr)
    (Tlb.view cfg.tlb (lookupRequest q sr) a.tlb) ea write h rfl
    (by simpa [lookupRequest] using hlegal) hallow (by
      intro hw
      have hok := hwrite hw
      simp only [pageWriteOk, Bool.or_eq_true, Bool.and_eq_true, Bool.not_eq_true',
        Bool.and_eq_false_iff, decide_eq_true_eq, decide_eq_false_iff_not, not_not] at hok
      refine hok.imp id ?_
      rintro ⟨⟨⟨hpo, hc⟩, hpp⟩, hkey⟩
      refine ⟨hpo, hc, hpp, ?_⟩
      rintro ⟨hk, hne⟩
      rcases hkey with hk' | htwo
      · cases hk.symm.trans hk'
      · exact hne htwo)
  have heq : pageAnswer cfg a { q with ea := ea, write := write } sr =
      Tlb.respond cfg.tlb { lookupRequest q sr with ea := ea, write := write }
        (Tlb.view cfg.tlb (lookupRequest q sr) a.tlb) := by
    rw [pageAnswer, hview, hrequest]
  rw [heq]
  exact hpage

/-- **What the router allows at one address of a page it allows at the others**, to the
same page, with the same attributes, and to a write where the entry takes writes. -/
theorem outcome_page {pa : BitVec 32} {wimg : BitVec 4} {esa : EsaEnable}
    (h : SamePage x.ea ea) (hlegal : (x.instruction && write) = false)
    (hallow : outcome cfg a x = .allow pa wimg esa)
    (hwrite : write = true → outcomeWriteOk cfg a x = true) :
    outcome cfg a { x with ea := ea, write := write, kind := kind, fp := fp } =
      .allow (pa.extractLsb' 12 20 ++ ea.extractLsb' 0 12) wimg esa := by
  have hq : requestOf cfg a { x with ea := ea, write := write, kind := kind, fp := fp } =
      { requestOf cfg a x with ea := ea, write := write } := rfl
  unfold outcome at hallow ⊢
  unfold outcomeWriteOk at hwrite
  simp only [hq]
  dsimp only at hallow hwrite
  by_cases hbat : (batAnswer cfg a (requestOf cfg a x)).translation.allow = true
  · rw [if_pos hbat] at hallow
    simp only [hbat, if_true] at hwrite
    obtain ⟨ha, hwimg, hesa, hpa⟩ := batAnswer_page (q := requestOf cfg a x) h hlegal hbat hwrite
    injection hallow with hpa' hwimg' hesa'
    rw [if_pos ha, hwimg, hesa, hpa, hpa', hwimg', hesa']
  · rw [if_neg hbat] at hallow
    simp only [hbat] at hwrite
    by_cases hmiss : cleanBatPageMiss cfg (requestOf cfg a x)
        (batAnswer cfg a (requestOf cfg a x)) = true
    · rw [if_pos hmiss, pageOutcome, pageReplyAllow_eq] at hallow
      obtain ⟨hno, hmiss'⟩ := cleanBatPageMiss_page (q := requestOf cfg a x) h hlegal hmiss
      rw [if_neg (by simp [hno]), if_pos hmiss', srWord_page (q := requestOf cfg a x) h,
        pageOutcome, pageReplyAllow_eq]
      split_ifs at hallow with hpage
      · obtain ⟨ha, hwimg, hesa, hpa⟩ :=
          pageAnswer_page (q := requestOf cfg a x) h hlegal hpage hwrite
        injection hallow with hpa' hwimg' hesa'
        rw [if_pos ha, pageWimg, hwimg, hesa, hpa, hpa', hesa']
        exact congrArg (Outcome.allow _ · _) hwimg'
      · exact absurd hallow (by simp [pageDenial]; split_ifs <;> simp)
    · rw [if_neg hmiss] at hallow
      exact absurd hallow (by simp [batDenial]; split_ifs <;> simp)

/-- A data access has no 602 permission. -/
theorem outcome_data_esa {pa : BitVec 32} {wimg : BitVec 4} {esa : EsaEnable}
    (hd : x.instruction = false) (h : outcome cfg a x = .allow pa wimg esa) : esa = .denied := by
  unfold outcome at h
  dsimp only at h
  split_ifs at h with hbat hmiss
  · injection h with _ _ hesa
    have hq : (requestOf cfg a x).instruction = false := hd
    have hse : (batAnswer cfg a (requestOf cfg a x)).translation.se = false := by
      rw [batAnswer_translation]
      exact Bat.translate_se rfl rfl hq
    rw [← hesa, batEsa, hse, if_neg Bool.false_ne_true]
  · rw [pageOutcome, pageReplyAllow_eq] at h
    split_ifs at h with hpage
    · injection h with _ _ hesa
      have hbank : (lookupRequest (requestOf cfg a x) (srWord a (requestOf cfg a x))).bank = true := by
        simp [lookupRequest, requestOf, hd]
      rw [← hesa]
      obtain ⟨-, ⟨-, -, heq⟩ | ⟨-, -, heq⟩ | ⟨-, -, heq⟩⟩ := Tlb.respond_allowed
        (q := lookupRequest (requestOf cfg a x) (srWord a (requestOf cfg a x))) rfl hpage
      all_goals
        rw [pageAnswer, heq]
        simp [Tlb.poBase, Tlb.poAllowed, Tlb.pageAllowed, hbank]
    · exact absurd h (by simp [pageDenial]; split_ifs <;> simp)
  · exact absurd h (by simp [batDenial]; split_ifs <;> simp)

/-! ## The LRU bits -/

/-- Committed states that agree on all but the LRU bits. -/
structure SameEntries (a a' : Arch) : Prop where
  banks : a'.banks = a.banks
  sr : a'.sr = a.sr
  valid : a'.tlb.valid = a.tlb.valid
  entries : a'.tlb.entries = a.tlb.entries
  ir : a'.ir = a.ir
  dr : a'.dr = a.dr
  pr : a'.pr = a.pr
  mmu602 : a'.mmu602 = a.mmu602

theorem SameFor.sameEntries {bank : Bool} {a' : Arch} (h : SameFor bank a a') : SameEntries a a' :=
  ⟨h.banks, h.sr, h.valid, h.entries, h.ir, h.dr, h.pr, h.mmu602⟩

theorem SameEntries.trans {a' b : Arch} (h : SameEntries a a') (h' : SameEntries a' b) :
    SameEntries a b :=
  ⟨h'.banks.trans h.banks, h'.sr.trans h.sr, h'.valid.trans h.valid, h'.entries.trans h.entries,
    h'.ir.trans h.ir, h'.dr.trans h.dr, h'.pr.trans h.pr, h'.mmu602.trans h.mmu602⟩

/-- **An allowed access does not depend on the LRU bits.** -/
theorem outcome_lru {a' : Arch} {pa : BitVec 32} {wimg : BitVec 4} {esa : EsaEnable}
    (hsame : SameEntries a a') (h : outcome cfg a x = .allow pa wimg esa) :
    outcome cfg a' x = .allow pa wimg esa := by
  have hq : requestOf cfg a' x = requestOf cfg a x := by
    simp [requestOf, hsame.ir, hsame.dr, hsame.pr, hsame.mmu602]
  have hb : batAnswer cfg a' (requestOf cfg a x) = batAnswer cfg a (requestOf cfg a x) := by
    simp [batAnswer, hsame.banks, hsame.mmu602]
  have hsr : srWord a' (requestOf cfg a x) = srWord a (requestOf cfg a x) := by
    simp [srWord, hsame.sr]
  unfold outcome at h ⊢
  simp only [hq, hb, hsr, hsame.mmu602]
  dsimp only at h
  split_ifs at h ⊢ with hbat hmiss
  · exact h
  · have hpage : pageAnswer cfg a' (requestOf cfg a x) (srWord a (requestOf cfg a x)) =
        pageAnswer cfg a (requestOf cfg a x) (srWord a (requestOf cfg a x)) := by
      have hallow : pageReplyAllow (requestOf cfg a x)
          (pageAnswer cfg a (requestOf cfg a x) (srWord a (requestOf cfg a x))) = true := by
        by_contra hno
        rw [pageOutcome, if_neg hno] at h
        split_ifs at h
        exact absurd h (by simp [pageDenial]; split_ifs <;> simp)
      have hhit : (pageAnswer cfg a (requestOf cfg a x)
          (srWord a (requestOf cfg a x))).hit = true := by
        simp only [pageReplyAllow, pageReplyConfig, Bool.and_eq_true, Bool.not_eq_true',
          Bool.or_eq_false_iff] at hallow
        simpa [hallow.1] using hallow.2.1.1.2
      refine Tlb.respond_lru ?_ ?_ hhit
      · simp only [Tlb.view, hsame.valid]
      · simp only [Tlb.view, hsame.entries]
    rw [hpage]
    exact h
  · exact absurd h (by simp [batDenial]; split_ifs <;> simp)

end Outcomes

end Router

end SloPPC603
