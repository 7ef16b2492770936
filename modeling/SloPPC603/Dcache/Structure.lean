import SloPPC603.Dcache.Plan

/-!
# How the arrays hold lines

What an edge can do to the line state, and the invariant of the arrays that
follows: a line is in one way at most, the way an operation is filling is invalid
and its line is nowhere, and the way an operation is writing in place holds its
line until the write is done, snoops notwithstanding.

* `holds_running` — a line is in a way after an edge only if it was before, or an
  install put it there.
* `holds_of_kept` — a claimed line stays in its way.
* `LineInv`, `lineInv_step` — the invariant of the arrays.
* `CastoutInv`, `castoutInv_step` — the castout flag covers its castout from
  lookup to completion.
-/

namespace SloPPC603
namespace Dcache

variable {cfg : Config} {s : State} {i : Input}

/-! ## One edge -/

/-- A lookup goes when no snoop is registered and the push engine is not reading. -/
theorem lkGo_spec (h : lkGo cfg s i = true) :
    s.state = .lookup ∧ s.snpValid = false ∧ s.pushSt ≠ .read ∧
      ((lk cfg s i).cob = true → s.cobValid = false) ∧
      (pushBusy s = true → s.pushLine ≠ reqLine s) := by
  simp only [lkGo, lkStall, Bool.and_eq_true, decide_eq_true_eq, Bool.not_eq_true',
    Bool.or_eq_false_iff, Bool.and_eq_false_imp, decide_eq_false_iff_not] at h
  obtain ⟨hst, ⟨⟨hsnp, hpush⟩, hcob⟩, hline⟩ := h
  exact ⟨hst, hsnp, hpush, hcob, hline⟩

theorem installGo_spec (h : installGo s = true) : s.state = .install ∧ s.snpValid = false := by
  simpa [installGo] using h

theorem lkGo_of_installGo (h : installGo s = true) : lkGo cfg s i = false := by
  simp [lkGo, (installGo_spec h).1]

/-- Either an edge writes the state of a set from the copy the lookup read there,
or it leaves it. -/
theorem stWe_set (ho : OwnerInv cfg s) (h : stWe cfg s i = true) :
    s.rdSet = stWaddr cfg s := by
  cases hsnp : s.snpValid with
  | true => simpa [stWaddr, hsnp] using (ho.snoop hsnp).1
  | false =>
    have hne : s.state ≠ .idle := by
      intro hidle
      simp [stWe, hsnp, lkGo, installGo, hidle] at h
    simpa [stWaddr, hsnp] using (ho.req hsnp hne).1

/-- No state write makes a way valid, but an install its own. -/
theorem stWvalid_le {w : ℕ} (h : stWvalid cfg s i w = true) :
    s.vld w = true ∨ installGo s = true ∧ w = s.way := by
  unfold stWvalid at h
  split_ifs at h with hsnp hgo hinst
  · simp only [sValid] at h
    split_ifs at h
    exact Or.inl h
  · exact Or.inl (lk_valid_le w h)
  · simp only [setWay] at h
    split_ifs at h with hw
    · exact Or.inr ⟨hinst, hw⟩
    · exact Or.inl h
  · exact Or.inl h

/-- A way is valid after an edge only if it was before, or the edge installs it. -/
theorem validAt_of_running (hl : LookupInv s) (ho : OwnerInv cfg s) {set w : ℕ}
    (h : validAt (running cfg s i) set w = true) :
    validAt s set w = true ∨ installGo s = true ∧ w = s.way ∧ set = reqSet cfg s := by
  rw [validAt_running, Bool.and_eq_true] at h
  split_ifs at h with hwe
  · have hset := stWe_set ho hwe.1
    rcases stWvalid_le h.2 with hv | ⟨hinst, hw⟩
    · rw [hl.vld, hset, ← hwe.2] at hv
      exact Or.inl hv
    · refine Or.inr ⟨hinst, hw, ?_⟩
      rw [hwe.2, stWaddr, (installGo_spec hinst).2]
      rfl
  · exact Or.inl h.2

/-- **A line is in a way after an edge** only if it was before or the edge
installed it. -/
theorem holds_running (hl : LookupInv s) (ho : OwnerInv cfg s) {w line : ℕ}
    (h : holds cfg (running cfg s i) w line) :
    (holds cfg s w line ∧ ¬ (installGo s = true ∧ w = s.way ∧ cfg.setOf line = reqSet cfg s)) ∨
      (installGo s = true ∧ w = s.way ∧ line = reqLine s) := by
  obtain ⟨hvalid, htag⟩ := h
  rw [tagRam_running] at htag
  split_ifs at htag with hinst
  · exact Or.inr ⟨hinst.1, hinst.2.1, (@line_eq_iff cfg _ _).2 ⟨hinst.2.2, htag.symm⟩⟩
  · rcases validAt_of_running hl ho hvalid with hv | hv
    · exact Or.inl ⟨⟨hv, htag⟩, hinst⟩
    · exact absurd hv hinst

/-! ## The hit way -/

/-- In a cycle owned by the line, the hit vector is the ways that hold it. -/
theorem hitw_iff {line w : ℕ} (hl : LookupInv s)
    (hset : s.rdSet = cfg.setOf line) (htag : s.rdTag = cfg.tagOf line) :
    s.hitw w = true ↔ holds cfg s w line := by
  rw [hl.hitw, hset, htag]
  rfl

theorem hitWay_of {line : ℕ} (hl : LookupInv s) (hu : Unique cfg s)
    (hset : s.rdSet = cfg.setOf line) (htag : s.rdTag = cfg.tagOf line) : HitWay cfg s := by
  intro hhit
  obtain ⟨w, hw, hhw⟩ := hit_iff.1 hhit
  have huniq : ∀ v < cfg.wayCount, s.hitw v = true → v = w := by
    intro v hv hhv
    exact hu line v hv w hw ((hitw_iff hl hset htag).1 hhv) ((hitw_iff hl hset htag).1 hhw)
  have heq := hway_eq hw hhw huniq
  refine ⟨by rw [heq]; exact hw, by rw [heq]; exact hhw, ?_, by rw [heq]; exact huniq⟩
  rw [heq, Bool.eq_iff_iff, hdirty_iff]
  constructor
  · rintro ⟨v, hv, hhv, hd⟩
    rwa [← huniq v hv hhv]
  · intro hd
    exact ⟨w, hw, hhw, hd⟩

theorem hitWay_snoop (hl : LookupInv s) (ho : OwnerInv cfg s) (hu : Unique cfg s)
    (hsnp : s.snpValid = true) : HitWay cfg s :=
  hitWay_of hl hu (ho.snoop hsnp).1 (ho.snoop hsnp).2

theorem hitWay_lookup (hl : LookupInv s) (ho : OwnerInv cfg s) (hu : Unique cfg s)
    (hgo : lkGo cfg s i = true) : HitWay cfg s := by
  obtain ⟨hst, hsnp, -⟩ := lkGo_spec hgo
  have hown := ho.req hsnp (by simp [hst])
  exact hitWay_of hl hu hown.1 hown.2

/-- In a lookup that misses no way holds the line. -/
theorem not_holds_of_miss (hl : LookupInv s) (ho : OwnerInv cfg s)
    (hgo : lkGo cfg s i = true) (hmiss : hit cfg s = false) :
    ∀ w < cfg.wayCount, ¬ holds cfg s w (reqLine s) := by
  intro w hw hh
  obtain ⟨hst, hsnp, -⟩ := lkGo_spec hgo
  have hown := ho.req hsnp (by simp [hst])
  have hhit : hit cfg s = true := hit_iff.2 ⟨w, hw, (hitw_iff hl hown.1 hown.2).2 hh⟩
  simp [hhit] at hmiss

/-! ## A claimed line stays -/

/-- A snoop that changes the line state has no conflict. -/
theorem sStWe_spec (h : sStWe cfg s i = true) :
    snpConflict s i = false ∧ s.snpProbe = false ∧ hit cfg s = true ∧ s.snpValid = true := by
  simp only [sStWe, sPush, sDrop, snpHits, snpActs, Bool.or_eq_true, Bool.and_eq_true,
    Bool.not_eq_true'] at h
  tauto

/-- **A line stays in its way** over an edge that neither looks up, installs nor
flashes, unless a snoop of the line without a conflict takes it. -/
theorem holds_of_kept (hl : LookupInv s) (ho : OwnerInv cfg s) (hu : Unique cfg s) {w line : ℕ}
    (hw : w < cfg.wayCount) (h : holds cfg s w line) (hgo : lkGo cfg s i = false)
    (hinst : installGo s = false) (hflash : flash s i = false)
    (hsnp : snpLine s = line → snpConflict s i = true) : holds cfg (running cfg s i) w line := by
  refine ⟨?_, by rw [tagRam_running, hinst]; simpa using h.2⟩
  rw [validAt_running, hflash]
  simp only [Bool.not_false, Bool.true_and]
  split_ifs with hwe
  · obtain ⟨hwe, hset⟩ := hwe
    have hsv : s.snpValid = true := by
      cases hv : s.snpValid with
      | true => rfl
      | false => simp [stWe, hv, hgo, hinst] at hwe
    have hown := ho.snoop hsv
    have hss : sStWe cfg s i = true := by simpa [stWe, hsv] using hwe
    have hhit := (sStWe_spec hss).2.2.1
    have hvld : s.vld w = true := by
      rw [hl.vld, stWe_set ho hwe, ← hset]
      exact h.1
    have hne : w ≠ hway cfg s := by
      rintro rfl
      obtain ⟨-, hhw, -⟩ := hitWay_snoop hl ho hu hsv hhit
      have hheld := (hitw_iff hl hown.1 hown.2).1 hhw
      have hsame : snpLine s = line := by
        rw [stWaddr, hsv] at hset
        refine (@line_eq_iff cfg _ _).2 ⟨hset.symm, ?_⟩
        have ht := h.2
        rw [hset, if_pos rfl] at ht
        rw [← hheld.2, ht]
      have hc := hsnp hsame
      rw [(sStWe_spec hss).1] at hc
      cases hc
    simp [stWvalid, hsv, sValid, hne, hvld]
  · exact h.1

/-! ## The write queue and the castout flag -/

/-- The castout flag is set from the lookup that casts a line out until the bus
completes that write, which is in the queue of posted writes at most once. -/
structure CastoutInv (s : State) : Prop where
  count_le : s.wqCount ≤ 4
  flag : phaseOf s.state = some .cobRead → s.cobValid = true
  posted : ∀ k < s.wqCount, s.wqCob k = true →
    s.cobValid = true ∧ phaseOf s.state ≠ some .cobRead
  once : ∀ k < s.wqCount, ∀ k' < s.wqCount, s.wqCob k = true → s.wqCob k' = true → k = k'

theorem wqCountPopped_eq (h : s.wqCount ≤ 4) :
    wqCountPopped s i = s.wqCount - (wqPop s i).toNat := by
  have hpop : wqPop s i = true → s.wqCount ≠ 0 := by
    intro hp
    simp only [wqPop, Bool.and_eq_true, decide_eq_true_eq, ne_eq] at hp
    exact hp.2
  unfold wqCountPopped
  cases hp : wqPop s i with
  | true =>
    have := hpop hp
    simp only [Bool.toNat_true]
    omega
  | false =>
    simp only [Bool.toNat_false]
    omega

theorem wqPush_spec (h : wqPush s i = true) : s.wqCount ≠ 4 ∧
    (s.state = .cobReq ∨ s.state = .addrReq ∨ s.state = .swriteReq) := by
  simp only [wqPush, busAccept, busReqValid, wqFull, Bool.and_eq_true, Bool.or_eq_true,
    decide_eq_true_eq] at h
  rcases h.2 with (hs | hs) | hs <;> simp_all

theorem wqCountNext_eq (h : s.wqCount ≤ 4) :
    wqCountNext s i = s.wqCount - (wqPop s i).toNat + (wqPush s i).toNat := by
  have hpush : wqPush s i = true → s.wqCount ≠ 4 := fun hp => (wqPush_spec hp).1
  rw [wqCountNext, wqCountPopped_eq h]
  cases hp : wqPush s i with
  | true =>
    have := hpush hp
    simp only [Bool.toNat_true]
    omega
  | false =>
    simp only [Bool.toNat_false]
    omega

/-- A castout in the queue after an edge was there before, or is the one the bus
accepts on the edge. -/
theorem wqCob_running (h : s.wqCount ≤ 4) {k : ℕ} (hk : k < wqCountNext s i)
    (hc : wqCobNext s i k = true) :
    (wqPush s i = true ∧ s.state = .cobReq ∧ k = s.wqCount - (wqPop s i).toNat) ∨
      (k + (wqPop s i).toNat < s.wqCount ∧ s.wqCob (k + (wqPop s i).toNat) = true) := by
  rw [wqCountNext_eq h] at hk
  rw [wqCobNext, wqCountPopped_eq h] at hc
  have hfull : wqPush s i = true → s.wqCount ≠ 4 := fun hp => (wqPush_spec hp).1
  split_ifs at hc with hpush hpop hlt
  · have hne := hfull hpush.1
    refine Or.inl ⟨hpush.1, by simpa [wqPushCob] using hc, ?_⟩
    have := hpush.2
    omega
  · refine Or.inr ?_
    rw [hpop] at hk hpush ⊢
    simp only [Bool.toNat_true] at hk hpush ⊢
    refine ⟨?_, hc⟩
    by_contra hge
    cases hp : wqPush s i with
    | true =>
      have hne := hfull hp
      simp only [hp, Bool.toNat_true, true_and] at hk hpush
      omega
    | false =>
      simp only [hp, Bool.toNat_false] at hk
      omega
  · refine Or.inr ?_
    rw [Bool.not_eq_true] at hpop
    rw [hpop] at hk hpush ⊢
    simp only [Bool.toNat_false, Nat.sub_zero, Nat.add_zero] at hk hpush ⊢
    refine ⟨?_, hc⟩
    by_contra hge
    cases hp : wqPush s i with
    | true =>
      have hne := hfull hp
      simp only [hp, Bool.toNat_true, true_and] at hk hpush
      omega
    | false =>
      simp only [hp, Bool.toNat_false] at hk
      omega

/-- A castout phase is entered by a lookup that casts out, and left by the bus
taking the castout. -/
theorem cob_phase_running (hc : ControlInv s)
    (h : phaseOf (nextState cfg s i) = some .cobRead) :
    (lkGo cfg s i = true ∧ (lk cfg s i).cob = true) ∨
      (phaseOf s.state = some .cobRead ∧ lkGo cfg s i = false ∧ wqPush s i = false) := by
  cases hp : phaseOf s.state with
  | none =>
    obtain ⟨-, hgo, -, -, -, hn, -⟩ := enter_phase hp h
    have hfirst := firstStep_of_phase (hn ▸ h)
    refine Or.inl ⟨hgo, ?_⟩
    rw [← lk_plan_cob]
    unfold firstStep at hfirst
    split_ifs at hfirst with hcob
    exact hcob
  | some p =>
    have hgo := @lkGo_of_phase cfg s i p hp
    obtain ⟨-, hfirst⟩ := hc p hp
    rcases @phase_step cfg s i _ hp with ⟨-, hn, -⟩ | ⟨hd, hn, -⟩ | ⟨-, -, -, -, hn⟩
    · rw [hn] at h
      have hclear := firstStep_of_phase h
      exact absurd hclear (firstStep_clear_ne_cob hfirst)
    · rw [hn, Option.some.injEq] at h
      subst h
      refine Or.inr ⟨rfl, hgo, ?_⟩
      cases hpush : wqPush s i with
      | false => rfl
      | true =>
        obtain ⟨-, hs⟩ := wqPush_spec hpush
        simp only [wqPush, Bool.and_eq_true] at hpush
        rcases hs with hs | hs | hs <;> simp [hs, phaseOf] at hp
        simp [stepDone, hs, hpush.1] at hd
    · simp [hn, phaseOf] at h

/-- **The castout flag covers its castout.** -/
theorem castoutInv_step (hc : ControlInv s) (hs : CastoutInv s) :
    CastoutInv (running cfg s i) := by
  have hflag : (running cfg s i).cobValid =
      if lkGo cfg s i && (lk cfg s i).cob then true
      else if wqPop s i && s.wqCob 0 then false else s.cobValid := rfl
  have hpos : wqPop s i = true → 0 < s.wqCount := by
    intro hp
    simp only [wqPop, Bool.and_eq_true, decide_eq_true_eq, ne_eq] at hp
    omega
  -- while a castout is still to be accepted none is posted, so its flag stays
  have hpending : phaseOf s.state = some .cobRead → (wqPop s i && s.wqCob 0) = false := by
    intro hphase
    cases hp : wqPop s i && s.wqCob 0 with
    | false => rfl
    | true =>
      rw [Bool.and_eq_true] at hp
      exact absurd hphase (hs.posted 0 (hpos hp.1) hp.2).2
  have hreq : s.state = .cobReq → phaseOf s.state = some .cobRead := by
    intro h
    rw [h]
    rfl
  refine ⟨?_, ?_, ?_, ?_⟩
  · show wqCountNext s i ≤ 4
    have hle := hs.count_le
    have hfull : wqPush s i = true → s.wqCount ≠ 4 := fun hp => (wqPush_spec hp).1
    rw [wqCountNext_eq hle]
    cases hp : wqPush s i with
    | true =>
      have := hfull hp
      simp only [Bool.toNat_true]
      omega
    | false =>
      simp only [Bool.toNat_false]
      omega
  · intro h
    rw [hflag]
    rcases cob_phase_running hc h with ⟨hgo, hcob⟩ | ⟨hphase, hgo, -⟩
    · simp [hgo, hcob]
    · simp [hgo, hpending hphase, hs.flag hphase]
  · intro k hk hcob
    rw [hflag]
    cases hlk : lkGo cfg s i && (lk cfg s i).cob with
    | true =>
      rw [Bool.and_eq_true] at hlk
      obtain ⟨hst, -, -, hfree, -⟩ := lkGo_spec hlk.1
      rcases wqCob_running hs.count_le hk hcob with ⟨-, hst', -⟩ | ⟨hlt, hold⟩
      · simp [hst] at hst'
      · have := (hs.posted _ hlt hold).1
        rw [hfree hlk.2] at this
        cases this
    | false =>
      have hphase' : phaseOf s.state ≠ some .cobRead ∨ wqPush s i = true →
          phaseOf (nextState cfg s i) ≠ some .cobRead := by
        intro hor h
        rcases cob_phase_running hc h with ⟨hgo, hcob⟩ | ⟨hphase, -, hpush⟩
        · simp [hgo, hcob] at hlk
        · rcases hor with hne | hpush'
          · exact hne hphase
          · simp [hpush] at hpush'
      rcases wqCob_running hs.count_le hk hcob with ⟨hpush, hst, -⟩ | ⟨hlt, hold⟩
      · refine ⟨?_, hphase' (Or.inr hpush)⟩
        simp [hpending (hreq hst), hs.flag (hreq hst)]
      · obtain ⟨hv, hne⟩ := hs.posted _ hlt hold
        refine ⟨?_, hphase' (Or.inl hne)⟩
        have hkeep : (wqPop s i && s.wqCob 0) = false := by
          cases hp : wqPop s i && s.wqCob 0 with
          | false => rfl
          | true =>
            rw [Bool.and_eq_true] at hp
            have heq := hs.once 0 (hpos hp.1) _ hlt hp.2 hold
            rw [hp.1] at heq
            simp at heq
        simp [hkeep, hv]
  · intro k hk k' hk' hcob hcob'
    rcases wqCob_running hs.count_le hk hcob with ⟨-, hst, heq⟩ | ⟨hlt, hold⟩
    · rcases wqCob_running hs.count_le hk' hcob' with ⟨-, -, heq'⟩ | ⟨hlt', hold'⟩
      · omega
      · exact absurd (hreq hst) (hs.posted _ hlt' hold').2
    · rcases wqCob_running hs.count_le hk' hcob' with ⟨-, hst, -⟩ | ⟨hlt', hold'⟩
      · exact absurd (hreq hst) (hs.posted _ hlt hold).2
      · have := hs.once _ hlt _ hlt' hold hold'
        omega

/-! ## The arrays -/

/-- How the arrays hold lines, and what an operation inside its plan has of its
own: an invalid way and a line that is nowhere when it will install, the line in
its way when it writes in place. -/
structure LineInv (cfg : Config) (s : State) : Prop where
  unique : Unique cfg s
  install : ∀ p, phaseOf s.state = some p → s.plan.install = true →
    s.way < cfg.wayCount ∧ validAt s (reqSet cfg s) s.way = false ∧
      ∀ w < cfg.wayCount, ¬ holds cfg s w (reqLine s)
  resident : ∀ p, phaseOf s.state = some p → (s.plan.store = true ∨ s.plan.zero = true) →
    s.plan.install = false → s.way < cfg.wayCount ∧ holds cfg s s.way (reqLine s) ∧
      (s.plan.cob = true → s.cobLine = reqLine s)

/-- A way written in place is past its castout or still casting the line out. -/
theorem conflict_of_resident (hc : ControlInv s) (hk : CastoutInv s) (hs : LineInv cfg s)
    {p : DcState} (hp : phaseOf s.state = some p)
    (hw : s.plan.store = true ∨ s.plan.zero = true) (hinst : s.plan.install = false)
    (hline : snpLine s = reqLine s) : snpConflict s i = true := by
  obtain ⟨hplanned, hfirst⟩ := hc p hp
  cases hcob : s.plan.cob with
  | true =>
    have hcl := (hs.resident p hp hw hinst).2.2 hcob
    have hphase : phaseOf s.state = some .cobRead := by
      rw [hp, ← hfirst, firstStep_eq_cob.2 hcob]
    simp [snpConflict, hk.flag hphase, hcl, hline]
  | false =>
    have hst : s.state = .zero ∨ s.state = .storeWrite := by
      have hfw := planned_inPlace hplanned hw hinst hcob
      rw [hfirst] at hfw
      cases hs : s.state <;> simp only [hs, phaseOf, Option.some.injEq, reduceCtorEq] at hp <;>
        subst hp <;> simp at hfw ⊢
    rcases hst with hst | hst <;> simp [snpConflict, fsmClaims, fsmOwns, hst, hline]

/-- A line written in place stays in its way. -/
theorem holds_of_resident (hl : LookupInv s) (ho : OwnerInv cfg s) (hc : ControlInv s)
    (hk : CastoutInv s) (hs : LineInv cfg s) {p : DcState} (hp : phaseOf s.state = some p)
    (hw : s.plan.store = true ∨ s.plan.zero = true) (hinst : s.plan.install = false) :
    holds cfg (running cfg s i) s.way (reqLine s) := by
  obtain ⟨hlt, hheld, -⟩ := hs.resident p hp hw hinst
  have hnot : installGo s = false := by
    cases hgo : installGo s with
    | false => rfl
    | true =>
      have hst := (installGo_spec hgo).1
      rw [hst, phaseOf, Option.some.injEq] at hp
      have hfirst := (hc p (by rw [hst, ← hp]; rfl)).2
      rw [← hp] at hfirst
      rw [(firstStep_eq_install hfirst)] at hinst
      cases hinst
  have hflash : flash s i = false := by
    cases hs : s.state <;> simp [hs, phaseOf] at hp <;> simp [flash, hs]
  exact holds_of_kept hl ho hs.unique hlt hheld (lkGo_of_phase hp) hnot hflash
    (conflict_of_resident hc hk hs hp hw hinst)

/-- The request registers hold while an operation is inside its plan or enters it. -/
theorem reqLine_running (h : reqAccept cfg s i = false) :
    reqLine (running cfg s i) = reqLine s := by simp [reqLine, running, h]

theorem reqSet_running (h : reqAccept cfg s i = false) :
    reqSet cfg (running cfg s i) = reqSet cfg s := by rw [reqSet, reqLine_running h, reqSet]

theorem unique_step (hl : LookupInv s) (ho : OwnerInv cfg s) (hc : ControlInv s)
    (hs : LineInv cfg s) : Unique cfg (running cfg s i) := by
  have hnew : installGo s = true → ∀ w < cfg.wayCount, ¬ holds cfg s w (reqLine s) := by
    intro hgo
    have hst := (installGo_spec hgo).1
    have hphase : phaseOf s.state = some .install := by rw [hst]; rfl
    exact (hs.install _ hphase (firstStep_eq_install (hc _ hphase).2)).2.2
  intro line w hw w' hw' h h'
  rcases holds_running hl ho h with ⟨hold, -⟩ | ⟨hgo, hway, hline⟩
  · rcases holds_running hl ho h' with ⟨hold', -⟩ | ⟨hgo', -, hline'⟩
    · exact hs.unique line w hw w' hw' hold hold'
    · exact absurd (hline' ▸ hold) (hnew hgo' w hw)
  · rcases holds_running hl ho h' with ⟨hold', -⟩ | ⟨-, hway', -⟩
    · exact absurd (hline ▸ hold') (hnew hgo w' hw')
    · rw [hway, hway']

/-- An operation that will install later does not install on this edge. -/
theorem not_installGo_of_later {p : DcState} (hp : phaseOf s.state = some p)
    (hinst : (nextPlan cfg s i).install = true) : installGo s = false := by
  cases hgo : installGo s with
  | false => rfl
  | true =>
    have hst := (installGo_spec hgo).1
    have hd : stepDone s i = true := by simp [stepDone, hst, hgo]
    have hpi : p = .install := by
      rw [hst] at hp
      exact (Option.some.inj hp).symm
    rcases @phase_step cfg s i _ hp with ⟨-, -, hn⟩ | ⟨hd', -⟩ | ⟨hd', -⟩
    · rw [hn, hpi] at hinst
      simp [Plan.clear] at hinst
    · simp [hd] at hd'
    · simp [hd] at hd'

theorem install_step (hl : LookupInv s) (ho : OwnerInv cfg s) (hs : LineInv cfg s)
    {q : DcState} (hq : phaseOf (nextState cfg s i) = some q)
    (hinst : (nextPlan cfg s i).install = true) :
    (running cfg s i).way < cfg.wayCount ∧
      validAt (running cfg s i) (reqSet cfg (running cfg s i)) (running cfg s i).way = false ∧
        ∀ w < cfg.wayCount, ¬ holds cfg (running cfg s i) w (reqLine (running cfg s i)) := by
  cases hp : phaseOf s.state with
  | some p =>
    have hgo := @lkGo_of_phase cfg s i p hp
    have hacc := @reqAccept_of_phase cfg s i p hp
    have hno := not_installGo_of_later hp hinst
    have hway : (running cfg s i).way = s.way := by simp [running, hgo]
    have hplan : s.plan.install = true := by
      rcases @phase_step cfg s i _ hp with ⟨-, -, hn⟩ | ⟨-, -, hn⟩ | ⟨-, -, -, -, hn⟩
      · rw [hn] at hinst
        exact install_of_clear hinst
      · rwa [hn] at hinst
      · simp [hn, phaseOf] at hq
    obtain ⟨hlt, hinv, hnot⟩ := hs.install p hp hplan
    rw [hway, reqLine_running hacc, reqSet_running hacc]
    refine ⟨hlt, ?_, ?_⟩
    · by_contra hv
      rw [Bool.not_eq_false] at hv
      rcases validAt_of_running hl ho hv with hv | ⟨hgo', -⟩
      · simp [hinv] at hv
      · simp [hno] at hgo'
    · intro w hw hh
      rcases holds_running hl ho hh with ⟨hold, -⟩ | ⟨hgo', -⟩
      · exact hnot w hw hold
      · simp [hno] at hgo'
  | none =>
    obtain ⟨hst, hgo, -, -, hacc, -, hn⟩ := enter_phase hp hq
    rw [hn] at hinst
    obtain ⟨hmiss, hlkway, hwe, hvalid, -⟩ := lk_install hinst
    obtain ⟨-, hsnp, -⟩ := lkGo_spec hgo
    have hway : (running cfg s i).way = victim cfg s := by simp [running, hgo, hlkway]
    have hno : installGo s = false := by simp [installGo, hst]
    rw [hway, reqLine_running hacc, reqSet_running hacc]
    refine ⟨victim_lt, ?_, ?_⟩
    · simp [validAt_running, stWe, hsnp, hgo, hwe, stWaddr, stWvalid, hvalid, setWay]
    · intro w hw hh
      rcases holds_running hl ho hh with ⟨hold, -⟩ | ⟨hgo', -⟩
      · exact not_holds_of_miss hl ho hgo hmiss w hw hold
      · simp [hno] at hgo'

theorem resident_step (hl : LookupInv s) (ho : OwnerInv cfg s) (hc : ControlInv s)
    (hk : CastoutInv s) (hs : LineInv cfg s) {q : DcState}
    (hq : phaseOf (nextState cfg s i) = some q)
    (hw : (nextPlan cfg s i).store = true ∨ (nextPlan cfg s i).zero = true)
    (hinst : (nextPlan cfg s i).install = false) :
    (running cfg s i).way < cfg.wayCount ∧
      holds cfg (running cfg s i) (running cfg s i).way (reqLine (running cfg s i)) ∧
        ((nextPlan cfg s i).cob = true →
          (running cfg s i).cobLine = reqLine (running cfg s i)) := by
  cases hp : phaseOf s.state with
  | some p =>
    have hgo := @lkGo_of_phase cfg s i p hp
    have hacc := @reqAccept_of_phase cfg s i p hp
    have hway : (running cfg s i).way = s.way := by simp [running, hgo]
    have hline : (running cfg s i).cobLine = s.cobLine := by simp [running, hgo]
    have hbefore : (s.plan.store = true ∨ s.plan.zero = true) ∧ s.plan.install = false ∧
        ((nextPlan cfg s i).cob = true → s.plan.cob = true) := by
      rcases @phase_step cfg s i _ hp with ⟨-, -, hn⟩ | ⟨-, -, hn⟩ | ⟨-, -, -, -, hn⟩
      · rw [hn] at hw hinst ⊢
        exact inPlace_of_clear (hc p hp).2 hw hinst
      · rw [hn] at hw hinst ⊢
        exact ⟨hw, hinst, id⟩
      · simp [hn, phaseOf] at hq
    obtain ⟨hw', hinst', hcob'⟩ := hbefore
    obtain ⟨hlt, -, hcob⟩ := hs.resident p hp hw' hinst'
    rw [hway, hline, reqLine_running hacc]
    exact ⟨hlt, holds_of_resident hl ho hc hk hs hp hw' hinst', fun h => hcob (hcob' h)⟩
  | none =>
    obtain ⟨hst, hgo, -, -, hacc, -, hn⟩ := enter_phase hp hq
    rw [hn] at hw hinst ⊢
    obtain ⟨hcob, hwrite⟩ := lk_hit hinst
    obtain ⟨hhit, hlkway, hvalid⟩ := hwrite hw
    obtain ⟨-, hsnp, -⟩ := lkGo_spec hgo
    have hown := ho.req hsnp (by simp [hst])
    obtain ⟨hlt, hhw, -⟩ := hitWay_lookup hl ho hs.unique hgo hhit
    have hheld := (hitw_iff hl hown.1 hown.2).1 hhw
    have hway : (running cfg s i).way = hway cfg s := by simp [running, hgo, hlkway]
    rw [hway, reqLine_running hacc]
    refine ⟨hlt, ⟨?_, ?_⟩, ?_⟩
    · have hvld : s.vld (Dcache.hway cfg s) = true := by
        rw [hl.vld, hown.1]
        exact hheld.1
      rw [validAt_running]
      simp only [flash, hst, reduceCtorEq, decide_false, Bool.false_and, Bool.not_false,
        Bool.true_and, stWvalid, hsnp, Bool.false_eq_true, if_false, hgo, if_true, hvalid]
      split_ifs
      · exact hvld
      · exact hheld.1
    · rw [tagRam_running]
      simpa [installGo, hst] using hheld.2
    · intro h
      rw [lk_plan_cob] at h
      simp [running, hgo, h, (hcob h).2.2.2]

/-- **The arrays keep their invariant.** -/
theorem lineInv_step (hl : LookupInv s) (ho : OwnerInv cfg s) (hc : ControlInv s)
    (hk : CastoutInv s) (hs : LineInv cfg s) : LineInv cfg (running cfg s i) where
  unique := unique_step hl ho hc hs
  install _ hq hinst := install_step hl ho hs hq hinst
  resident _ hq hw hinst := resident_step hl ho hc hk hs hq hw hinst

/-! ## Every reachable state -/

/-- What holds of the arrays and the control registers in every reachable state. -/
structure ArrayInv (cfg : Config) (s : State) : Prop where
  lookup : LookupInv s
  owner : OwnerInv cfg s
  control : ControlInv s
  castout : CastoutInv s
  lines : LineInv cfg s

theorem arrayInv_step (hrst : i.rstN = true) (h : ArrayInv cfg s) :
    ArrayInv cfg (running cfg s i) where
  lookup := lookupInv_step hrst
  owner := ownerInv_step hrst
  control := controlInv_step h.control
  castout := castoutInv_step h.control h.castout
  lines := lineInv_step h.lookup h.owner h.control h.castout h.lines

theorem validAt_initial (h : (machine cfg).Initial s) (set w : ℕ) : validAt s set w = false := by
  obtain ⟨s₀, i, hrst, rfl⟩ := h
  simp [validAt, step, hrst, reset]

theorem state_initial (h : (machine cfg).Initial s) :
    s.state = .idle ∧ s.snpValid = false ∧ s.wqCount = 0 ∧ s.pushSt = .idle ∧
      s.rsp.valid = false ∧ s.resvValid = false := by
  obtain ⟨s₀, i, hrst, rfl⟩ := h
  simp [step, hrst, reset]

theorem lookupInv_initial (h : (machine cfg).Initial s) : LookupInv s := by
  have hv := validAt_initial h
  obtain ⟨s₀, i, hrst, rfl⟩ := h
  refine ⟨fun w => ?_, fun w => ?_, fun w => ?_, fun w => ?_⟩
  · rw [hv]
    simp [step, hrst, reset, running, running.svNext]
  · rw [dirtyAt, hv]
    simp [step, hrst, reset, running, running.svNext]
  · simp [step, hrst, reset, running]
  · rw [hv]
    simp [step, hrst, reset, running, running.svNext]

theorem arrayInv_initial (h : (machine cfg).Initial s) : ArrayInv cfg s := by
  obtain ⟨hst, hsnp, hwq, -⟩ := state_initial h
  refine ⟨lookupInv_initial h, ⟨?_, ?_⟩, ?_, ⟨?_, ?_, ?_, ?_⟩, ⟨?_, ?_, ?_⟩⟩
  · simp [hsnp]
  · simp [hst]
  · intro p hp
    simp [hst, phaseOf] at hp
  · omega
  · simp [hst, phaseOf]
  · intro k hk
    omega
  · intro k hk
    omega
  · intro line w _ w' _ hh
    exact absurd hh.1 (by simp [validAt_initial h])
  · intro p hp
    simp [hst, phaseOf] at hp
  · intro p hp
    simp [hst, phaseOf] at hp

/-- The machine is out of reset. -/
def OutOfReset (_ : State) (i : Input) : Prop := i.rstN = true

theorem arrayInv_run {r : Clocked.Run (machine cfg)} {n : ℕ} (h : r.Obeys OutOfReset n) :
    ArrayInv cfg (r.state n) :=
  Clocked.Run.invariant (fun _ hs => arrayInv_initial hs)
    (fun s i hs hi => by
      show ArrayInv cfg (step cfg s i)
      rw [step_running hi]
      exact arrayInv_step hi hs) h

end Dcache
end SloPPC603
