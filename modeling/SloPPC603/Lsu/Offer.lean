import SloPPC603.Lsu.Order

/-!
# A standing offer

An offer the port refuses stands, and what it asked for has been registered: the EA
formed from a base written in its first cycle, the speed decided on that EA, and the
store data a wake brought.

* `PortLegal` — the rules with which nothing is woken twice.
* `head_of_stands` — the head of P1 after the edge of a refused offer.
* `StandInv`, `standInv_run` — a standing offer waits for nothing.
-/

namespace SloPPC603
namespace Lsu

open Rename (Wake)

/-! ## Rules -/

/-- No port brings the result of this entry. -/
def NotWoken (i : Input) (producer : CompletionTag) : Prop :=
  (i.wake.valid = true → i.wake.producer ≠ producer) ∧
    (i.wake1.valid = true → i.wake1.producer ≠ producer)

instance (i : Input) (producer : CompletionTag) : Decidable (NotWoken i producer) :=
  inferInstanceAs (Decidable (_ ∧ _))

/-- An entry finishes once: a source taken late is not woken again. -/
structure PortLegal (cfg : Config) (s : State) (i : Input) : Prop extends Legal cfg s i where
  baseOnce : ∀ e ∈ s.p1, e.baseLate = true → NotWoken i e.baseProducer
  dataOnce : ∀ e ∈ s.p1, e.dataLate = true → NotWoken i e.dataProducer

variable {cfg : Config} {s : State} {i : Input}

instance : Decidable (PortLegal cfg s i) :=
  decidable_of_iff (Legal cfg s i ∧ (∀ e ∈ s.p1, e.baseLate = true → NotWoken i e.baseProducer) ∧
    ∀ e ∈ s.p1, e.dataLate = true → NotWoken i e.dataProducer)
    ⟨fun ⟨h, hb, hd⟩ => ⟨h, hb, hd⟩, fun h => ⟨h.toLegal, h.baseOnce, h.dataOnce⟩⟩

/-! ## What an edge registers -/

section Registers

/-- The base is not touched by the store data. -/
theorem takeBase_takeData (e : Entry) :
    (Entry.takeBase cfg i (Entry.takeData i e)).ea = (Entry.takeBase cfg i e).ea ∧
      (Entry.takeBase cfg i (Entry.takeData i e)).fast = (Entry.takeBase cfg i e).fast ∧
      (Entry.takeBase cfg i (Entry.takeData i e)).baseWait = (Entry.takeBase cfg i e).baseWait := by
  obtain ⟨d, b, c, heq⟩ : ∃ d b c, Entry.takeData i e =
      { e with data := d, dataReady := b, dataLate := c } := by
    unfold Entry.takeData
    split_ifs
    · exact ⟨e.data, true, false, rfl⟩
    · exact ⟨e.data, e.dataReady, e.dataLate, rfl⟩
    · split
      · exact ⟨_, _, _, rfl⟩
      · exact ⟨e.data, e.dataReady, e.dataLate, rfl⟩
  rw [heq]
  unfold Entry.takeBase
  refine ⟨?_, ?_, ?_⟩
  all_goals
    dsimp only
    split_ifs
    · rfl
    · split <;> rfl
    · rfl

theorem takeBase_data (e : Entry) : (Entry.takeBase cfg i e).data = e.data ∧
    (Entry.takeBase cfg i e).dataReady = e.dataReady := by
  unfold Entry.takeBase
  split_ifs
  · exact ⟨rfl, rfl⟩
  · split <;> exact ⟨rfl, rfl⟩
  · exact ⟨rfl, rfl⟩

/-- A wake of a source that has not been taken late. -/
theorem wakeOf_of_wake (h : Legal cfg s i) {tag : BitVec 3} {producer : CompletionTag} {w : Wake}
    (hport : w = i.wake ∨ w = i.wake1) (hvalid : w.valid = true) (htag : w.tag = tag)
    (hprod : w.producer = producer) : wakeOf i tag producer = some w := by
  rcases hport with rfl | rfl
  · simp [wakeOf, hvalid, htag, hprod]
  · have hne : (i.wake.valid && decide (i.wake.tag = tag) &&
        decide (i.wake.producer = producer)) = false := by
      rw [Bool.and_eq_false_iff]
      cases hv : i.wake.valid with
      | false => left; rfl
      | true =>
        right
        rw [decide_eq_false_iff_not, ← hprod]
        exact h.wakes hv hvalid
    simp [wakeOf, hne, hvalid, htag, hprod]

/-- **The base over the edge**: the EA and the speed of the offer are registered. -/
theorem takeBase_head (h : PortLegal cfg s i) (hvalid : p1Valid s = true)
    (hready : headBaseReady cfg s i = true) {e : Entry} (hea : e.ea = (p1Head s).ea)
    (hfast : e.fast = (p1Head s).fast) (hwait : e.baseWait = (p1Head s).baseWait)
    (hlate : e.baseLate = (p1Head s).baseLate) (htag : e.baseTag = (p1Head s).baseTag)
    (hprod : e.baseProducer = (p1Head s).baseProducer) (hoff : e.offset = (p1Head s).offset)
    (hsize : e.uop.memSize = (p1Head s).uop.memSize) :
    (Entry.takeBase cfg i e).baseWait = false ∧ (Entry.takeBase cfg i e).ea = headEa cfg s i ∧
      (Entry.takeBase cfg i e).fast = headFast cfg s i := by
  cases hw : (p1Head s).baseWait with
  | false =>
    have hsame : headEa cfg s i = (p1Head s).ea ∧ headFast cfg s i = (p1Head s).fast := by
      simp [headEa, headFast, hw]
    rw [hw] at hwait
    unfold Entry.takeBase
    rw [hwait, hsame.1, hsame.2, Bool.and_false, if_neg Bool.false_ne_true]
    split_ifs
    · exact ⟨rfl, hea, hfast⟩
    · exact ⟨hwait, hea, hfast⟩
  | true =>
    simp only [headBaseReady, hw, Bool.not_true, Bool.false_or, Bool.or_eq_true] at hready
    -- the port in time that writes the base
    obtain ⟨w, hport, hbase, hEa⟩ : ∃ w, (w = i.wake ∨ w = i.wake1) ∧
        headBase cfg s w = true ∧ headEa cfg s i = w.value + (p1Head s).offset := by
      cases hb : headBase cfg s i.wake with
      | true =>
        have hcfg : cfg.baseSnoop = true ∧ i.wake.valid = true ∧ i.wake.late = false := by
          simp only [headBase, Bool.and_eq_true, Bool.not_eq_true'] at hb
          exact ⟨hb.1.1.1.1, hb.1.1.1.2, hb.1.1.2⟩
        refine ⟨i.wake, Or.inl rfl, hb, ?_⟩
        rw [headEa, hcfg.1, hw, hb, ← h.early hcfg.2.1 hcfg.2.2]
        rfl
      | false =>
        have hb1 : headBase cfg s i.wake1 = true := by
          rw [hb] at hready
          simpa using hready
        have hcfg : cfg.baseSnoop = true ∧ i.wake1.valid = true ∧ i.wake1.late = false := by
          simp only [headBase, Bool.and_eq_true, Bool.not_eq_true'] at hb1
          exact ⟨hb1.1.1.1.1, hb1.1.1.1.2, hb1.1.1.2⟩
        refine ⟨i.wake1, Or.inr rfl, hb1, ?_⟩
        rw [headEa, hcfg.1, hw, hb, hb1, ← h.early1 hcfg.2.1 hcfg.2.2]
        rfl
    simp only [headBase, Bool.and_eq_true, Bool.not_eq_true', decide_eq_true_eq] at hbase
    obtain ⟨⟨⟨⟨hsnoop, hv⟩, hnotlate⟩, hwtag⟩, hwprod⟩ := hbase
    have hnolate : (p1Head s).baseLate = false := by
      by_contra hl
      obtain ⟨h0, h1⟩ := h.baseOnce _ (p1Head_mem hvalid) (by simpa using hl)
      rcases hport with rfl | rfl
      · exact h0 hv hwprod
      · exact h1 hv hwprod
    have hof := wakeOf_of_wake h.toLegal hport hv (hwtag.trans htag.symm) (hwprod.trans hprod.symm)
    have hFast : headFast cfg s i = (intFast (p1Head s).uop.memSize (headEa cfg s i) &&
        !intTrap cfg (p1Head s).uop.memSize (headEa cfg s i) i.dr) := by
      simp [headFast, hsnoop, hw]
    unfold Entry.takeBase
    rw [hlate, hnolate, hwait, hw, hof, Config.baseAny, hsnoop, hFast, hEa, hsize, hoff]
    exact ⟨hnotlate, rfl, rfl⟩

/-- **The store data over the edge** of an integer access whose data is there. -/
theorem takeData_head (h : PortLegal cfg s i) (hvalid : p1Valid s = true)
    (hready : headDataReady s i = true) {e : Entry} (hdata : e.data = (p1Head s).data)
    (hrd : e.dataReady = (p1Head s).dataReady) (hlate : e.dataLate = (p1Head s).dataLate)
    (htag : e.dataTag = (p1Head s).dataTag)
    (hprod : e.dataProducer = (p1Head s).dataProducer) :
    (Entry.takeData i e).dataReady = true ∧ (Entry.takeData i e).data = headData s i := by
  cases hr : (p1Head s).dataReady with
  | true =>
    have hsame : headData s i = (p1Head s).data := by simp [headData, hr]
    rw [hr] at hrd
    unfold Entry.takeData
    rw [hsame]
    split_ifs
    · exact ⟨rfl, hdata⟩
    · exact ⟨hrd, hdata⟩
  | false =>
    simp only [headDataReady, hr, Bool.false_or, Bool.or_eq_true] at hready
    obtain ⟨w, hport, hwake, hval⟩ : ∃ w, (w = i.wake ∨ w = i.wake1) ∧
        headWake s w = true ∧ headData s i = w.value := by
      cases hb : headWake s i.wake with
      | true => exact ⟨i.wake, Or.inl rfl, hb, by simp [headData, hr, hb]⟩
      | false =>
        rw [hb] at hready
        exact ⟨i.wake1, Or.inr rfl, by simpa using hready, by simp [headData, hr, hb]⟩
    simp only [headWake, Bool.and_eq_true, Bool.not_eq_true', decide_eq_true_eq] at hwake
    obtain ⟨⟨⟨hv, hnotlate⟩, hwtag⟩, hwprod⟩ := hwake
    have hnolate : (p1Head s).dataLate = false := by
      by_contra hl
      obtain ⟨h0, h1⟩ := h.dataOnce _ (p1Head_mem hvalid) (by simpa using hl)
      rcases hport with rfl | rfl
      · exact h0 hv hwprod
      · exact h1 hv hwprod
    have hof := wakeOf_of_wake h.toLegal hport hv (hwtag.trans htag.symm) (hwprod.trans hprod.symm)
    unfold Entry.takeData
    rw [hlate, hnolate, hrd, hr, hof, hval, if_neg Bool.false_ne_true, if_neg Bool.false_ne_true]
    exact ⟨by simp [hnotlate], rfl⟩

theorem takeBase_uop (e : Entry) :
    (Entry.takeBase cfg i e).uop.memSize = e.uop.memSize ∧
      (Entry.takeBase cfg i e).uop.memReverse = e.uop.memReverse := by
  unfold Entry.takeBase
  split_ifs
  · exact ⟨rfl, rfl⟩
  · split
    · dsimp only
      split_ifs <;> exact ⟨rfl, rfl⟩
    · exact ⟨rfl, rfl⟩
  · exact ⟨rfl, rfl⟩

theorem takeData_uop (e : Entry) : (Entry.takeData i e).uop = e.uop := by
  unfold Entry.takeData
  split_ifs
  · rfl
  · rfl
  · split <;> rfl

end Registers

/-! ## A standing offer waits for nothing -/

section Stand

/-- The access of a standing offer has its base, and an integer one its data. -/
structure StandInv (s : State) : Prop where
  base : s.offered = true → (p1Head s).baseWait = false
  data : s.offered = true → (p1Head s).fp = false → (p1Head s).dataReady = true

/-- What an offer finds at the head. -/
theorem ready_of_offer (hS : StandInv s) (ho : offer cfg s i = true) : p1Valid s = true ∧
    headFast cfg s i = true ∧ headBaseReady cfg s i = true ∧
    ((p1Head s).fp = false → headDataReady s i = true) := by
  simp only [offer, Bool.and_eq_true] at ho
  obtain ⟨⟨⟨⟨⟨-, hvalid⟩, hfast⟩, hbase⟩, -⟩, hcase⟩ := ho
  refine ⟨hvalid, hfast, hbase, ?_⟩
  intro hfp
  have hstanding : s.offered = true → headDataReady s i = true := by
    intro hoff
    rw [headDataReady, hS.data hoff hfp]
    rfl
  by_cases hkilled : (p1Head s).killed = true
  · rw [if_pos hkilled, Bool.and_eq_true] at hcase
    exact hstanding hcase.1
  · rw [if_neg hkilled, Bool.or_eq_true] at hcase
    rcases hcase with hoff | hnew
    · exact hstanding hoff
    · simp only [Bool.and_eq_true] at hnew
      have hready := hnew.1.2
      rw [p1Ready, hfp] at hready
      exact hready

/-- **The head of a refused offer after the edge**: everything the offer asked for is
in its registers. -/
theorem head_of_stands (hI : OrderInv s) (hS : StandInv s) (h : PortLegal cfg s i)
    (ho : offer cfg s i = true) (hr : i.reqReady = false) :
    (p1Head (step cfg s i)).baseWait = false ∧
      (p1Head (step cfg s i)).ea = headEa cfg s i ∧
      (p1Head (step cfg s i)).fast = true ∧
      (p1Head (step cfg s i)).uop.memSize = (p1Head s).uop.memSize ∧
      (p1Head (step cfg s i)).uop.memReverse = (p1Head s).uop.memReverse ∧
      ((p1Head s).fp = false → (p1Head (step cfg s i)).dataReady = true ∧
        (p1Head (step cfg s i)).data = headData s i) := by
  obtain ⟨hvalid, hfast, hbase, hdata⟩ := ready_of_offer hS ho
  rw [p1Head_of_stands hI h.running ho hr, p1Next]
  obtain ⟨hea, hsp, hwait⟩ := @takeBase_takeData cfg i { p1Head s with
    hold := false
    killed := (p1Head s).killed || doom cfg s i || killedNow i (p1Head s).producer
    bspec := (p1Head s).bspec && !i.branchResolved
    launched := (p1Head s).launched || (i.fpLaunchValid && (p1Head s).producer = i.fpLaunchTag) }
  obtain ⟨hbw, hbea, hbfast⟩ := @takeBase_head cfg s i h hvalid hbase { p1Head s with
    hold := false
    killed := (p1Head s).killed || doom cfg s i || killedNow i (p1Head s).producer
    bspec := (p1Head s).bspec && !i.branchResolved
    launched := (p1Head s).launched || (i.fpLaunchValid && (p1Head s).producer = i.fpLaunchTag) }
    rfl rfl rfl rfl rfl rfl rfl rfl
  refine ⟨hwait.trans hbw, hea.trans hbea, hsp.trans (hbfast.trans hfast), ?_, ?_, ?_⟩
  · rw [(takeBase_uop _).1, takeData_uop]
  · rw [(takeBase_uop _).2, takeData_uop]
  · intro hfp
    rw [(takeBase_data _).1, (takeBase_data _).2]
    exact takeData_head h hvalid (hdata hfp) rfl rfl rfl rfl rfl

theorem standInv_step (hI : OrderInv s) (hS : StandInv s) (h : PortLegal cfg s i) :
    StandInv (step cfg s i) where
  base := by
    intro hoff
    obtain ⟨ho, hr⟩ := offered_step h.running hoff
    exact (head_of_stands hI hS h ho hr).1
  data := by
    intro hoff hfp
    obtain ⟨ho, hr⟩ := offered_step h.running hoff
    rw [fp_of_fixed (fixed_of_stands hI h.running ho hr).1] at hfp
    exact ((head_of_stands hI hS h ho hr).2.2.2.2.2 hfp).1

/-- **A standing offer waits for nothing**, over a run. -/
theorem standInv_run {r : Clocked.Run (machine cfg)} {n : ℕ} (h : r.Obeys (PortLegal cfg) n) :
    OrderInv (r.state n) ∧ StandInv (r.state n) := by
  refine Clocked.Run.invariant (I := fun s => OrderInv s ∧ StandInv s) (fun s hs => ?_)
    (fun _ _ hI hi => ?_) h
  · rw [show s = resetState from hs]
    exact ⟨orderInv_reset, by simp [resetState], by simp [resetState]⟩
  · exact ⟨orderInv_step hI.1 hi.toLegal, standInv_step hI.1 hI.2 hi⟩

end Stand

end Lsu
end SloPPC603
