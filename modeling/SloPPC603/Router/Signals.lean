import SloPPC603.Router.Model

/-!
# The router's signals

What the lane handshakes, the arbiter of the translation sequence and the grants of the
update slot say about the state they were given in.

* `nextOwner_of_slotGrant`, `slotGrant_of_nextOwner` — the slot has one owner at a time.
* `of_iAccept`, `of_dAccept` — what an accepted request needs.
* `nextIState_slow`, `nextDState_slow` — a lane becomes slow by being chosen.
-/

namespace SloPPC603
namespace Router

/-! ## The slot -/

section Slot

variable {cfg : Config} {s : State} {i : Input}

theorem lanesIdle_iff : lanesIdle s = true ↔ s.iState = .idle ∧ s.dState = .idle := by
  simp [lanesIdle]

/-- The slot is only free over idle lanes, with no request at them. -/
theorem of_slotFree (h : slotFree s i = true) : i.rstN = true ∧ s.route = .idle ∧
    s.owner = .none ∧ lanesIdle s = true ∧ serviceIdle s i = true ∧
    segmentServiceIdle s i = true ∧ tlbTransactionIdle s i = true ∧ i.imemReqValid = false ∧
    i.dmemReqValid = false := by
  simpa [slotFree, and_assoc] using h

theorem slotFree_of_slotAsk {o : Owner} (h : slotAsk cfg s i o = true) :
    slotFree s i = true := by
  simp only [slotAsk, slotOffer, Bool.and_eq_true] at h
  exact h.1.1.1

theorem slotAsk_of_slotGrant {o : Owner} (h : slotGrant cfg s i o = true) :
    slotAsk cfg s i o = true := by
  cases o with
  | none => cases h
  | _ =>
    simp only [slotGrant, Bool.and_eq_true] at h
    exact h.1

theorem slotAsk_of_not_free (h : slotFree s i = false) (o : Owner) :
    slotAsk cfg s i o = false := by
  simp [slotAsk, slotOffer, h]

theorem slotGrant_of_not_free (h : slotFree s i = false) (o : Owner) :
    slotGrant cfg s i o = false := by
  rw [← Bool.not_eq_true]
  intro hg
  have hask := slotAsk_of_slotGrant hg
  rw [slotAsk_of_not_free h] at hask
  cases hask

theorem slotFree_of_busy (h : lanesIdle s = false) : slotFree s i = false := by
  simp [slotFree, h]

theorem slotFree_of_owner (h : s.owner ≠ .none) : slotFree s i = false := by
  simp [slotFree, h]

/-- A requester that asks is pending for those below it. -/
theorem slotPending_of_slotAsk {o : Owner} (h : slotAsk cfg s i o = true) :
    slotPending cfg i o = true := by
  simp only [slotAsk, slotOffer, Bool.and_eq_true] at h
  obtain ⟨⟨⟨-, helig⟩, -⟩, hreq⟩ := h
  cases o <;>
    simp_all [slotEligible, slotPending, slotRequest]

/-- No requester above one that asks does. -/
theorem slotAsk_higher {o p : Owner} (h : slotAsk cfg s i o = true) (ho : p ∈ higher o) :
    slotAsk cfg s i p = false := by
  rw [← Bool.not_eq_true]
  intro h'
  have hpend := slotPending_of_slotAsk h'
  simp only [slotAsk, slotOffer, Bool.and_eq_true, Bool.not_eq_true', List.any_eq_false] at h
  exact h.1.2 p ho hpend

theorem slotGrant_higher {o p : Owner} (h : slotAsk cfg s i o = true) (ho : p ∈ higher o) :
    slotGrant cfg s i p = false := by
  rw [← Bool.not_eq_true]
  intro hg
  have hask := slotAsk_of_slotGrant hg
  rw [slotAsk_higher h ho] at hask
  cases hask

/-- The granted requester owns the slot. -/
theorem nextOwner_of_slotGrant {o : Owner} (h : slotGrant cfg s i o = true) :
    nextOwner cfg s i = o := by
  have hask := slotAsk_of_slotGrant h
  have hnone := (of_slotFree (slotFree_of_slotAsk hask)).2.2.1
  simp only [nextOwner, hnone]
  cases o with
  | none => cases h
  | batCsr => rw [if_pos h]
  | segment =>
    rw [slotGrant_higher hask (p := .batCsr) (by simp [higher]), if_neg Bool.false_ne_true,
      if_pos h]
  | tlbInv =>
    rw [slotGrant_higher hask (p := .batCsr) (by simp [higher]), if_neg Bool.false_ne_true,
      slotGrant_higher hask (p := .segment) (by simp [higher]), if_neg Bool.false_ne_true,
      if_pos h]
  | tlbFill =>
    rw [slotGrant_higher hask (p := .batCsr) (by simp [higher]), if_neg Bool.false_ne_true,
      slotGrant_higher hask (p := .segment) (by simp [higher]), if_neg Bool.false_ne_true,
      slotGrant_higher hask (p := .tlbInv) (by simp [higher]), if_neg Bool.false_ne_true,
      if_pos h]
  | tlbMgmt =>
    rw [slotGrant_higher hask (p := .batCsr) (by simp [higher]), if_neg Bool.false_ne_true,
      slotGrant_higher hask (p := .segment) (by simp [higher]), if_neg Bool.false_ne_true,
      slotGrant_higher hask (p := .tlbInv) (by simp [higher]), if_neg Bool.false_ne_true,
      slotGrant_higher hask (p := .tlbFill) (by simp [higher]), if_neg Bool.false_ne_true,
      if_pos h]

/-- A slot is only taken by a grant. -/
theorem slotGrant_of_nextOwner (hnone : s.owner = .none) (h : nextOwner cfg s i ≠ .none) :
    slotGrant cfg s i (nextOwner cfg s i) = true := by
  simp only [nextOwner, hnone] at h ⊢
  split_ifs at h ⊢ <;> first | assumption | exact absurd rfl h

/-- Without a grant, the free slot stays free. -/
theorem nextOwner_none (hnone : s.owner = .none) (h : slotFree s i = false) :
    nextOwner cfg s i = .none := by
  by_contra hne
  have hg := slotGrant_of_nextOwner hnone hne
  rw [slotGrant_of_not_free h] at hg
  cases hg

end Slot

/-! ## The lanes -/

section Lanes

variable {cfg : Config} {s : State} {i : Input}

theorem of_laneAcceptOk (h : laneAcceptOk s i = true) : i.rstN = true ∧ s.running = true ∧
    s.owner = .none ∧ s.ifetchFatal = false := by
  simpa [laneAcceptOk, and_assoc] using h

theorem of_iAccept (h : iAccept cfg s i = true) : i.imemReqValid = true ∧
    laneAcceptOk s i = true ∧ (s.iState = .idle ∨ iFinish cfg s i = true) := by
  simpa [iAccept, imemReqReady, and_assoc] using h

theorem of_iFinish (h : iFinish cfg s i = true) : s.iState = .response ∧
    i.pimemRspValid = true ∧ iRefetchFire cfg s i = false ∧ iError cfg s i = false ∧
    i.imemRspReady = true := by
  simp only [iFinish, Bool.and_eq_true, Bool.not_eq_true', decide_eq_true_eq,
    Bool.or_eq_true] at h
  obtain ⟨⟨⟨⟨hs, hv⟩, hre⟩, herr⟩, hr⟩ := h
  refine ⟨hs, hv, hre, ?_, hr⟩
  rcases herr with herr | herr <;> simp [iError, herr]

theorem of_dFinish (h : dFinish s i = true) : s.dState = .response ∧
    i.pdmemRspValid = true ∧ i.dmemRspReady = true := by
  simpa [dFinish, and_assoc] using h

/-- What a pipelined offer needs. -/
theorem of_dPipeTry (h : dPipeTry cfg s i = true) : i.dmemReqValid = true ∧
    dHit cfg s i = true ∧ laneAcceptOk s i = true ∧ i.dmemReq.kind = .normal ∧
    (s.dState = .idle ∨
      (s.dState = .response ∧
        ((s.dSecond = false ∧ s.dDs = false) ∨ dFinish s i = true))) := by
  simp only [dPipeTry, Bool.and_eq_true, Bool.or_eq_true, Bool.not_eq_true',
    decide_eq_true_eq] at h
  exact ⟨h.1.1.1.1.1.2, h.1.1.1.1.2, h.1.1.2, h.1.1.1.2, h.2⟩

theorem dAccept_of_dPipeAccept (h : dPipeAccept cfg s i = true) : dAccept cfg s i = true := by
  simp only [dPipeAccept, Bool.and_eq_true] at h
  simp [dAccept, dmemReqReady, h.1, h.2, (of_dPipeTry h.1).1]

/-- What an accepted data request needs. -/
theorem of_dAccept (h : dAccept cfg s i = true) : i.dmemReqValid = true ∧
    laneAcceptOk s i = true ∧
    (dPipeAccept cfg s i = true ∨
      (dPipeAccept cfg s i = false ∧
        (s.dState = .idle ∨ (dFinish s i = true ∧ s.dSecond = false)))) := by
  simp only [dAccept, dmemReqReady, Bool.and_eq_true] at h
  obtain ⟨hv, h⟩ := h
  cases htry : dPipeTry cfg s i with
  | true =>
    rw [htry, if_pos rfl] at h
    exact ⟨hv, (of_dPipeTry htry).2.2.1, Or.inl (by simp [dPipeAccept, htry, h])⟩
  | false =>
    simp only [htry, Bool.false_eq_true, if_false, Bool.and_eq_true, Bool.or_eq_true,
      decide_eq_true_eq, Bool.not_eq_true'] at h
    exact ⟨hv, h.1.1, Or.inr ⟨by simp [dPipeAccept, htry], h.1.2⟩⟩

/-- A lane accepts while idle, or as its response is taken. -/
theorem iState_of_iAccept (h : iAccept cfg s i = true) :
    s.iState = .idle ∨ s.iState = .response := by
  rcases (of_iAccept h).2.2 with hidle | hfin
  · exact Or.inl hidle
  · exact Or.inr (of_iFinish hfin).1

theorem dState_of_dAccept (h : dAccept cfg s i = true) :
    s.dState = .idle ∨ s.dState = .response := by
  rcases (of_dAccept h).2.2 with hp | ⟨-, hidle | ⟨hfin, -⟩⟩
  · simp only [dPipeAccept, Bool.and_eq_true] at hp
    exact (of_dPipeTry hp.1).2.2.2.2.imp id And.left
  · exact Or.inl hidle
  · exact Or.inr (of_dFinish hfin).1

theorem of_chooseInstruction (h : chooseInstruction cfg s i = true) : s.route = .idle ∧
    (s.iState = .wait ∨ (iAccept cfg s i = true ∧ iHit cfg s i = false)) := by
  simp only [chooseInstruction, wantInstruction, Bool.and_eq_true, Bool.or_eq_true,
    decide_eq_true_eq, Bool.not_eq_true'] at h
  exact ⟨h.1.1.2, h.1.2⟩

theorem of_chooseData (h : chooseData cfg s i = true) : s.route = .idle ∧
    (s.dState = .wait ∨ (dAccept cfg s i = true ∧ dHit cfg s i = false)) := by
  simp only [chooseData, wantData, Bool.and_eq_true, Bool.or_eq_true, decide_eq_true_eq,
    Bool.not_eq_true'] at h
  exact ⟨h.1.1.2, h.1.2⟩

/-- One lane is chosen at a time. -/
theorem not_chooseData (h : chooseInstruction cfg s i = true) : chooseData cfg s i = false := by
  unfold chooseInstruction at h
  unfold chooseData
  cases hw : wantData cfg s i <;> cases hl : s.lastGrantData <;> simp_all

theorem choose_of_route (h : s.route ≠ .idle) :
    chooseInstruction cfg s i = false ∧ chooseData cfg s i = false := by
  constructor <;> rw [← Bool.not_eq_true] <;> intro hc
  · exact h (of_chooseInstruction hc).1
  · exact h (of_chooseData hc).1

/-- A lane that is not slow becomes so by being chosen. -/
theorem nextIState_slow (h : s.iState ≠ .slow) :
    nextIState cfg s i = .slow ↔ chooseInstruction cfg s i = true := by
  have hacc : nextIState cfg s i = .slow → iAccept cfg s i = false → s.iState = .wait := by
    intro hn ha
    unfold nextIState at hn
    cases hs : s.iState <;> simp_all
    all_goals split_ifs at hn
  constructor
  · intro hn
    cases ha : iAccept cfg s i with
    | false =>
      have hw := hacc hn ha
      simpa [nextIState, hw] using hn
    | true =>
      by_contra hc
      rw [Bool.not_eq_true] at hc
      have hst : iAcceptState cfg s i ≠ .slow := by
        simp only [iAcceptState, hc, Bool.false_eq_true, if_false]
        split_ifs <;> simp
      unfold nextIState at hn
      cases hs : s.iState <;> simp_all
      all_goals split_ifs at hn
      all_goals exact hst hn
  · intro hc
    obtain ⟨-, hw | ⟨ha, hh⟩⟩ := of_chooseInstruction hc
    · simp [nextIState, hw, hc]
    · have hst : iAcceptState cfg s i = .slow := by simp [iAcceptState, hh, hc]
      obtain ⟨-, -, hidle | hfin⟩ := of_iAccept ha
      · simp [nextIState, hidle, ha, hst]
      · obtain ⟨hs, -, hre, herr, -⟩ := of_iFinish hfin
        simp [nextIState, hs, hre, herr, ha, hst]

theorem nextDState_slow (h : s.dState ≠ .slow) :
    nextDState cfg s i = .slow ↔ chooseData cfg s i = true := by
  constructor
  · intro hn
    by_contra hc
    rw [Bool.not_eq_true] at hc
    have hst : dAcceptState cfg s i ≠ .slow := by
      simp only [dAcceptState, hc, Bool.false_eq_true, if_false]
      split_ifs <;> simp
    unfold nextDState at hn
    cases hs : s.dState <;> simp_all
    all_goals split_ifs at hn
    all_goals exact hst hn
  · intro hc
    obtain ⟨-, hw | ⟨ha, hh⟩⟩ := of_chooseData hc
    · simp [nextDState, hw, hc]
    · have hst : dAcceptState cfg s i = .slow := by simp [dAcceptState, hh, hc]
      obtain ⟨-, -, hp | ⟨hp, hidle | ⟨hfin, -⟩⟩⟩ := of_dAccept ha
      · simp only [dPipeAccept, Bool.and_eq_true] at hp
        rw [(of_dPipeTry hp.1).2.1] at hh
        cases hh
      · simp [nextDState, hidle, hp, ha, hst]
      · simp [nextDState, (of_dFinish hfin).1, hp, ha, hst]

/-- Idle lanes that accept nothing stay idle. -/
theorem lanes_stay (h : lanesIdle s = true) (hi : iAccept cfg s i = false)
    (hd : dAccept cfg s i = false) :
    nextIState cfg s i = .idle ∧ nextDState cfg s i = .idle := by
  obtain ⟨his, hds⟩ := lanesIdle_iff.1 h
  have hp : dPipeAccept cfg s i = false := by
    rw [← Bool.not_eq_true]
    intro hp
    rw [dAccept_of_dPipeAccept hp] at hd
    cases hd
  constructor
  · simp [nextIState, his, hi]
  · simp [nextDState, hds, hd, hp]

/-- Idle lanes that accept nothing choose nothing. -/
theorem choose_stay (h : lanesIdle s = true) (hi : iAccept cfg s i = false)
    (hd : dAccept cfg s i = false) : choose cfg s i = false := by
  obtain ⟨his, hds⟩ := lanesIdle_iff.1 h
  simp [choose, chooseInstruction, chooseData, wantInstruction, wantData, his, hds, hi, hd]

/-- Nothing is accepted while the slot is owned, or before the start. -/
theorem not_accept (h : laneAcceptOk s i = false) :
    iAccept cfg s i = false ∧ dAccept cfg s i = false := by
  constructor <;> rw [← Bool.not_eq_true] <;> intro hc
  · rw [(of_iAccept hc).2.1] at h
    cases h
  · rw [(of_dAccept hc).2.1] at h
    cases h

/-- Nothing is accepted as the slot is granted. -/
theorem not_accept_of_slotFree (h : slotFree s i = true) :
    iAccept cfg s i = false ∧ dAccept cfg s i = false := by
  obtain ⟨-, -, -, -, -, -, -, hi, hd⟩ := of_slotFree h
  simp [iAccept, dAccept, hi, hd]

end Lanes

end Router
end SloPPC603
