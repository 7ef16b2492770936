import SloPPC603.Completion.RingInv

/-!
# The fixed-lane retirement path

A result may retire its entry in the cycle it arrives.  For that the completion
queue decides early, without the age scan of `redirect_kill_o`, whether the
cycle's recovery removes the head or CQ[1]: `pending_head_kill` and
`pending_head1_kill` compare the pivot with the two fixed slots only.  This file
proves the short predicates right wherever they are used.

* `HeadInv` — the head is a slot of the ring and CQ[1] is the slot after it.
  Both follow from the head registers alone, so they hold on every edge of every
  run, whatever the inputs.
* `pivotHit_head`, `pivotHit_head1` — a pivot of age zero or one is a pivot at
  the head or at CQ[1].
* `pendingHeadKill_eq`, `pendingHead1Kill_eq` — the short predicates are the
  accepted recovery's, for an entry that has not finished.
* `lanes_agree` — so the six same-cycle finishes are full acceptances of the
  three finish ports.
-/

namespace SloPPC603
namespace Completion

/-! ## The head registers -/

/-- The head is a slot of the ring and CQ[1] is the slot after it. -/
structure HeadInv (s : State) : Prop where
  head_lt : s.head < cqDepth
  head1_eq : s.head1 = Ring.next cqDepth s.head

namespace HeadInv

variable {cfg : Config} {s : State} {i : Input}

theorem head1_lt (hs : HeadInv s) : s.head1 < cqDepth := by
  rw [hs.head1_eq]
  exact Ring.next_lt hs.head_lt

theorem age_head1 (hs : HeadInv s) : Ring.age cqDepth s.head1 s.head = 1 := by
  rw [hs.head1_eq, Ring.next_eq_offset hs.head_lt]
  exact Ring.age_offset hs.head_lt (by decide)

/-- A slot of age zero is the head. -/
theorem age_eq_zero (hs : HeadInv s) {slot : ℕ} (hslot : slot < cqDepth) :
    Ring.age cqDepth slot s.head = 0 ↔ slot = s.head := by
  rw [Ring.age_eq_iff hslot hs.head_lt (by decide), Ring.offset_zero hs.head_lt]

/-- A slot of age one is CQ[1]. -/
theorem age_eq_one (hs : HeadInv s) {slot : ℕ} (hslot : slot < cqDepth) :
    Ring.age cqDepth slot s.head = 1 ↔ slot = s.head1 := by
  rw [Ring.age_eq_iff hslot hs.head_lt (by decide), hs.head1_eq,
    Ring.next_eq_offset hs.head_lt]

theorem resetState : HeadInv resetState := ⟨by decide, by decide⟩

/-- No edge asks anything of its inputs to keep the head registers in step. -/
theorem step (hs : HeadInv s) : HeadInv (step cfg s i) := by
  have h1 := hs.head1_lt
  have h2 : Ring.next cqDepth s.head1 < cqDepth := Ring.next_lt h1
  unfold Completion.step
  split_ifs with hrst
  · constructor
    · show nextHead cfg s i < cqDepth
      unfold nextHead
      split_ifs
      · rwa [nextIndex_eq h1]
      · exact h1
      · exact hs.head_lt
    · show nextHead1 cfg s i = Ring.next cqDepth (nextHead cfg s i)
      unfold nextHead1 nextHead
      split_ifs
      · rw [nextIndex_eq h1, nextIndex_eq h2]
      · exact nextIndex_eq h1
      · exact hs.head1_eq
  · exact HeadInv.resetState

/-- It holds in every state a run reaches. -/
theorem run (r : Clocked.Run (machine cfg)) (n : ℕ) : HeadInv (r.state n) := by
  refine r.invariant (A := fun _ _ => True) ?_ (fun s i hs _ => hs.step) (fun _ _ => trivial)
  rintro s ⟨s₀, i, hrst, rfl⟩
  rw [Completion.step, if_neg (by simp [hrst])]
  exact HeadInv.resetState

end HeadInv

/-! ## The pivot beside the two fixed slots -/

section Kill

variable {cfg : Config} {s : State} {i : Input}

/-- Without pivots every requested recovery removes every entry. -/
theorem redirectKill_of_no_pivot (h : cfg.pivot = false) (slot : ℕ) :
    redirectKill cfg s i slot = (i.redirectValid && s.active slot) := by
  have hen : cfg.enablePivotRecovery = false := by
    simp only [Config.pivot, Bool.or_eq_false_iff] at h
    exact h.1
  simp [redirectKill, redirectAccepted, redirectFound, redirectCandidateKill, h,
    headIrrevocable, head1Irrevocable, hen]

/-- A pivot that hits with age zero is a pivot at the head. -/
theorem pivotHit_head (hs : HeadInv s) (hpivot : cfg.pivot = true)
    (hall : i.redirectAll = false) :
    pivotAtHead s i = true ↔ pivotHit cfg s i = true ∧ pivotAge s i = 0 := by
  have hself : ringAge s.head s.head = 0 := by
    rw [ringAge_eq hs.head_lt hs.head_lt, Ring.age_self]
  constructor
  · intro h
    simp only [pivotAtHead, Bool.and_eq_true, decide_eq_true_eq] at h
    obtain ⟨⟨⟨hcount, hact⟩, hidx⟩, hgen⟩ := h
    have hage : pivotAge s i = 0 := by rw [pivotAge, hidx, hself]
    have hpos : 0 < s.count := Nat.pos_of_ne_zero hcount
    refine ⟨?_, hage⟩
    simp [pivotHit, hpivot, hall, hage, pivotOwnerMatch, hidx, hs.head_lt, hact, hgen, hpos]
  · rintro ⟨hhit, hage⟩
    obtain ⟨-, hidx, hlt, hact, hgen⟩ := pivotHit_spec hhit
    rw [pivotAge, ringAge_eq hidx hs.head_lt, hs.age_eq_zero hidx] at hage
    have hcount : s.count ≠ 0 := by omega
    rw [hage] at hact hgen
    simp [pivotAtHead, hcount, hact, hage, hgen]

/-- A pivot that hits with age one is a pivot at CQ[1]. -/
theorem pivotHit_head1 (hs : HeadInv s) (hpivot : cfg.pivot = true)
    (hall : i.redirectAll = false) :
    pivotAtHead1 s i = true ↔ pivotHit cfg s i = true ∧ pivotAge s i = 1 := by
  have hone : ringAge s.head1 s.head = 1 := by
    rw [ringAge_eq hs.head1_lt hs.head_lt, hs.age_head1]
  constructor
  · intro h
    simp only [pivotAtHead1, Bool.and_eq_true, decide_eq_true_eq] at h
    obtain ⟨⟨⟨hcount, hact⟩, hidx⟩, hgen⟩ := h
    have hage : pivotAge s i = 1 := by rw [pivotAge, hidx, hone]
    refine ⟨?_, hage⟩
    simp [pivotHit, hpivot, hall, hage, pivotOwnerMatch, hidx, hs.head1_lt, hact, hgen, hcount]
  · rintro ⟨hhit, hage⟩
    obtain ⟨-, hidx, hlt, hact, hgen⟩ := pivotHit_spec hhit
    have hcount : 1 < s.count := by omega
    rw [pivotAge, ringAge_eq hidx hs.head_lt, hs.age_eq_one hidx] at hage
    rw [hage] at hact hgen
    simp [pivotAtHead1, hcount, hact, hage, hgen]

/-- What a recovery request retains, once it is found: nothing, or what is older
than the pivot and the pivot when it is kept. -/
theorem retained_found (hs : HeadInv s) (hpivot : cfg.pivot = true) :
    (i.redirectAll = true → retained cfg s i = 0) ∧
      (i.redirectAll = false → pivotHit cfg s i = true →
        retained cfg s i = pivotAge s i + i.redirectKeepPivot.toNat) := by
  constructor
  · intro hall
    simp [retained, hpivot, pivotRetained, hall]
  · intro hall hhit
    have hidx := (pivotHit_spec hhit).2.1
    have hage : pivotAge s i < 5 := by
      rw [pivotAge, ringAge_eq hidx hs.head_lt]
      exact Ring.age_lt hidx
    have hk : i.redirectKeepPivot.toNat ≤ 1 := Bool.toNat_le _
    simp only [retained, hpivot, pivotRetained, hall, hhit, if_true, Bool.false_eq_true, if_false]
    omega

/-- The recovery request reaches the entry of age `d`: it removes everything, or
its pivot is older, or its pivot is the entry and is dropped. -/
theorem retained_le_iff (hs : HeadInv s) (hpivot : cfg.pivot = true) (d : ℕ) :
    (redirectFound cfg s i = true ∧ retained cfg s i ≤ d) ↔
      i.redirectAll = true ∨ (i.redirectAll = false ∧ pivotHit cfg s i = true ∧
        (pivotAge s i < d ∨ pivotAge s i = d ∧ i.redirectKeepPivot = false)) := by
  obtain ⟨hwhole, hpart⟩ := retained_found (i := i) hs hpivot
  cases hall : i.redirectAll with
  | true => simp [redirectFound, hpivot, hall, hwhole hall]
  | false =>
    cases hhit : pivotHit cfg s i with
    | false => simp [redirectFound, hpivot, hall, hhit]
    | true =>
      rw [hpart hall hhit]
      cases hk : i.redirectKeepPivot <;>
        simp only [redirectFound, hpivot, hall, hhit, if_true, Bool.or_true, true_and,
          Bool.toNat_true, Bool.toNat_false, Bool.false_eq_true, false_or, Bool.true_eq_false,
          and_false, or_false, and_true] <;> omega

/-- `kill_head` is the head's half of `pending_head_kill`. -/
theorem killHead_iff (hpivot : cfg.pivot = true) (hcount : s.count ≠ 0) :
    killHead cfg s i = true ↔
      i.redirectAll = true ∨ (pivotAtHead s i = true ∧ i.redirectKeepPivot = false) := by
  simp only [killHead, pivotAtHead, hpivot, hcount, Bool.and_eq_true, Bool.or_eq_true,
    Bool.not_eq_true', decide_eq_true_eq, ne_eq, not_false_eq_true, decide_true]
  tauto

/-! ## The short predicates -/

/-- **The head's short predicate is the accepted recovery's.** -/
theorem pendingHeadKill_eq (hs : HeadInv s) (h : pendingHead s = true) :
    pendingHeadKill cfg s i = redirectKill cfg s i s.head := by
  simp only [pendingHead, Bool.and_eq_true, Bool.not_eq_true', decide_eq_true_eq] at h
  obtain ⟨⟨hcount, hact⟩, hdone⟩ := h
  have hcount : s.count ≠ 0 := hcount
  cases hpivot : cfg.pivot with
  | false => simp [pendingHeadKill, hpivot, redirectKill_of_no_pivot hpivot, hact]
  | true =>
    -- neither settled offer can refuse the recovery: both need the head done
    have hirr : headIrrevocable cfg s i = false := by simp [headIrrevocable, hdone]
    have hirr1 : head1Irrevocable cfg s i = false := by
      simp [head1Irrevocable, retire1Settled, hdone]
    have hreach := retained_le_iff (i := i) hs hpivot 0
    have hage : ringAge s.head s.head = 0 := by
      rw [ringAge_eq hs.head_lt hs.head_lt, Ring.age_self]
    have hpos : 0 < s.count := Nat.pos_of_ne_zero hcount
    rw [Bool.eq_iff_iff]
    simp only [redirectKill, redirectAccepted, redirectCandidateKill, hpivot, hirr, hirr1, hage,
      hpos, pendingHeadKill, if_true, Bool.and_eq_true, Bool.or_eq_true, Bool.not_true,
      Bool.false_eq_true, false_or, Bool.not_false, and_true, decide_true, true_and,
      decide_eq_true_eq, Bool.not_eq_true']
    cases hall : i.redirectAll with
    | true =>
      have hr := hreach.2 (Or.inl hall)
      simp [hr.1, hr.2]
    | false =>
      rw [and_assoc, hreach, pivotHit_head hs hpivot hall]
      simp [hall]
      tauto

/-- **CQ[1]'s short predicate is the accepted recovery's.** -/
theorem pendingHead1Kill_eq (hs : HeadInv s) (h : pendingHead1 s = true) :
    pendingHead1Kill cfg s i = redirectKill cfg s i s.head1 := by
  simp only [pendingHead1, Bool.and_eq_true, Bool.not_eq_true', decide_eq_true_eq] at h
  obtain ⟨⟨hcount, hact⟩, hdone⟩ := h
  have hnz : s.count ≠ 0 := by omega
  cases hpivot : cfg.pivot with
  | false =>
    have hen : cfg.enablePivotRecovery = false := by
      simp only [Config.pivot, Bool.or_eq_false_iff] at hpivot
      exact hpivot.1
    simp [pendingHead1Kill, hpivot, redirectKill_of_no_pivot hpivot, hact,
      headRecoveryProtected, hen]
  | true =>
    -- the settled pair cannot refuse the recovery; a settled head can, and does
    have hirr1 : head1Irrevocable cfg s i = false := by
      simp [head1Irrevocable, retire1Settled, hdone]
    have hage : ringAge s.head1 s.head = 1 := by
      rw [ringAge_eq hs.head1_lt hs.head_lt, hs.age_head1]
    have hreach := retained_le_iff (i := i) hs hpivot 1
    have hprot : headIrrevocable cfg s i = true ↔
        headRecoveryProtected cfg s i = true ∧ killHead cfg s i = true := by
      simp [headIrrevocable, headRecoveryProtected]
    have hkill := killHead_iff (i := i) hpivot hnz
    rw [Bool.eq_iff_iff]
    have hright : redirectKill cfg s i s.head1 = true ↔ i.redirectValid = true ∧
        (redirectFound cfg s i = true ∧ retained cfg s i ≤ 1) ∧
          ¬ headIrrevocable cfg s i = true := by
      simp only [redirectKill, redirectAccepted, redirectCandidateKill, hpivot, hirr1, hage,
        hcount, if_true, Bool.and_eq_true, Bool.not_false, and_true, decide_true, true_and,
        decide_eq_true_eq, Bool.not_eq_true', Bool.not_eq_true]
      tauto
    have hleft : pendingHead1Kill cfg s i = true ↔ i.redirectValid = true ∧
        (i.redirectAll = true ∨ pivotAtHead s i = true ∨
          (pivotAtHead1 s i = true ∧ i.redirectKeepPivot = false)) ∧
          ¬ headIrrevocable cfg s i = true := by
      rw [hprot, hkill]
      simp only [pendingHead1Kill, pendingHeadKill, hpivot, Bool.not_true, Bool.false_or]
      cases i.redirectValid <;> cases i.redirectAll <;> cases pivotAtHead s i <;>
        cases i.redirectKeepPivot <;> simp
    rw [hleft, hright, hreach]
    cases hall : i.redirectAll with
    | true => simp
    | false =>
      rw [pivotHit_head hs hpivot hall, pivotHit_head1 hs hpivot hall]
      simp only [Bool.false_eq_true, false_or, true_and, Nat.lt_one_iff]
      refine and_congr_right fun _ => and_congr_left fun _ => ?_
      constructor
      · rintro (⟨hhit, h0⟩ | ⟨⟨hhit, h1⟩, hk⟩)
        · exact ⟨hhit, Or.inl h0⟩
        · exact ⟨hhit, Or.inr ⟨h1, hk⟩⟩
      · rintro ⟨hhit, h0 | ⟨h1, hk⟩⟩
        · exact Or.inl ⟨hhit, h0⟩
        · exact Or.inr ⟨⟨hhit, h1⟩, hk⟩

end Kill

/-! ## Same-cycle finishes -/

section Lanes

variable {cfg : Config} {s : State} {i : Input}

/-- The signals of a fixed retirement lane agree with the indexed path at its
slot: its kill term is `redirect_kill_o` there, and each port's same-cycle finish
is that port's full acceptance, clean where the port asks for it, of a result for
the slot. -/
structure LaneAgrees (cfg : Config) (s : State) (i : Input) (slot : ℕ)
    (kill now0 now1 now2 : Bool) : Prop where
  kill_eq : kill = redirectKill cfg s i slot
  now0_eq : now0 = (finishAccept cfg s i && i.resultRetire && !resultFault cfg i &&
    decide (i.result.producer.index = slot))
  now1_eq : now1 = (finish1Accept cfg s i && i.result1Retire &&
    decide (i.result1.producer.index = slot))
  now2_eq : now2 = (finish2Accept cfg s i && !result2Fault cfg i &&
    decide (i.result2.producer.index = slot))

/-- For a result that names an unfinished slot of the queue, the indexed
acceptance leaves the generation and the recovery to check. -/
theorem finishOwner_at {slot : ℕ} (hslot : slot < cqDepth) (hact : s.active slot = true)
    (hdone : s.done slot = false) (valid : Bool) (r : ResultPacket) :
    (finishOwner cfg s i valid r = true ∧ r.producer.index = slot) ↔
      valid = true ∧ r.producer.index = slot ∧ r.producer.generation = s.generations slot ∧
        redirectKill cfg s i slot = false := by
  constructor
  · rintro ⟨hown, rfl⟩
    simp only [finishOwner, Bool.and_eq_true, Bool.not_eq_true', decide_eq_true_eq] at hown
    obtain ⟨⟨⟨⟨⟨hvalid, -⟩, -⟩, -⟩, hgen⟩, hkill⟩ := hown
    exact ⟨hvalid, rfl, hgen.symm, hkill⟩
  · rintro ⟨hvalid, rfl, hgen, hkill⟩
    exact ⟨by simp [finishOwner, hvalid, hslot, hact, hdone, hgen, hkill], rfl⟩

/-- The head's lane agrees with the indexed path while the head is pending. -/
theorem headLane_agrees (hs : HeadInv s) (h : pendingHead s = true) :
    LaneAgrees cfg s i s.head (pendingHeadKill cfg s i) (headNow0 cfg s i) (headNow1 cfg s i)
      (headNow2 cfg s i) := by
  have hkill : pendingHeadKill cfg s i = redirectKill cfg s i s.head := pendingHeadKill_eq hs h
  have hpend := h
  simp only [pendingHead, Bool.and_eq_true, Bool.not_eq_true'] at hpend
  have hown := @finishOwner_at cfg s i _ hs.head_lt hpend.1.2 hpend.2
  refine ⟨hkill, ?_, ?_, ?_⟩ <;> rw [Bool.eq_iff_iff]
  · have hport := hown i.resultValid i.result
    simp only [headNow0, headResultMatch, finishAccept, h, hkill, Bool.and_eq_true,
      Bool.not_eq_true', decide_eq_true_eq, true_and]
    tauto
  · have hport := hown i.result1Valid i.result1
    simp only [headNow1, headResultMatch, finish1Accept, h, hkill, Bool.and_eq_true,
      Bool.not_eq_true', decide_eq_true_eq, true_and]
    tauto
  · have hport := hown i.result2Valid i.result2
    simp only [headNow2, headResultMatch, finish2Accept, h, hkill, Bool.and_eq_true,
      Bool.not_eq_true', decide_eq_true_eq, true_and]
    tauto

/-- CQ[1]'s lane agrees with the indexed path while CQ[1] is pending. -/
theorem head1Lane_agrees (hs : HeadInv s) (h : pendingHead1 s = true) :
    LaneAgrees cfg s i s.head1 (pendingHead1Kill cfg s i) (head1Now0 cfg s i)
      (head1Now1 cfg s i) (head1Now2 cfg s i) := by
  have hkill : pendingHead1Kill cfg s i = redirectKill cfg s i s.head1 :=
    pendingHead1Kill_eq hs h
  have hpend := h
  simp only [pendingHead1, Bool.and_eq_true, Bool.not_eq_true'] at hpend
  have hown := @finishOwner_at cfg s i _ hs.head1_lt hpend.1.2 hpend.2
  refine ⟨hkill, ?_, ?_, ?_⟩ <;> rw [Bool.eq_iff_iff]
  · have hport := hown i.resultValid i.result
    simp only [head1Now0, head1ResultMatch, finishAccept, h, hkill, Bool.and_eq_true,
      Bool.not_eq_true', decide_eq_true_eq, true_and]
    tauto
  · have hport := hown i.result1Valid i.result1
    simp only [head1Now1, head1ResultMatch, finish1Accept, h, hkill, Bool.and_eq_true,
      Bool.not_eq_true', decide_eq_true_eq, true_and]
    tauto
  · have hport := hown i.result2Valid i.result2
    simp only [head1Now2, head1ResultMatch, finish2Accept, h, hkill, Bool.and_eq_true,
      Bool.not_eq_true', decide_eq_true_eq, true_and]
    tauto

end Lanes

/-- **The fixed lanes agree with the indexed path** in every state of every run,
under every input, in every build. -/
theorem lanes_agree (cfg : Config) (r : Clocked.Run (machine cfg)) (n : ℕ) (i : Input) :
    (pendingHead (r.state n) = true →
      LaneAgrees cfg (r.state n) i (r.state n).head (pendingHeadKill cfg (r.state n) i)
        (headNow0 cfg (r.state n) i) (headNow1 cfg (r.state n) i) (headNow2 cfg (r.state n) i)) ∧
    (pendingHead1 (r.state n) = true →
      LaneAgrees cfg (r.state n) i (r.state n).head1 (pendingHead1Kill cfg (r.state n) i)
        (head1Now0 cfg (r.state n) i) (head1Now1 cfg (r.state n) i)
        (head1Now2 cfg (r.state n) i)) := by
  have hs := HeadInv.run r n
  exact ⟨headLane_agrees hs, head1Lane_agrees hs⟩

/-- A run that allocates two unfinished entries on its first edge. -/
def pendingRun : Clocked.Run (machine ⟨true, true, true, true⟩) where
  start := resetState
  initial := initial_reset _
  input := fun _ => { allocValid := true, alloc1Valid := true }

/-- A recovery that drops CQ[1] on the edge results for both entries arrive. -/
def dropHead1 : Input where
  resultValid := true
  resultRetire := true
  result := { (default : ResultPacket) with producer := ⟨0, 1⟩ }
  result1Valid := true
  result1Retire := true
  result1 := { (default : ResultPacket) with producer := ⟨1, 1⟩ }
  redirectValid := true
  redirectPivot := ⟨1, 1⟩

/-- Both lanes are pending there: the head finishes and CQ[1]'s result is refused. -/
theorem lanes_agree_dropHead1 :
    LaneAgrees ⟨true, true, true, true⟩ (pendingRun.state 1) dropHead1 0 false true false false ∧
      LaneAgrees ⟨true, true, true, true⟩ (pendingRun.state 1) dropHead1 1 true false false
        false :=
  ⟨(lanes_agree _ pendingRun 1 dropHead1).1 (by decide),
    (lanes_agree _ pendingRun 1 dropHead1).2 (by decide)⟩

end Completion
end SloPPC603
