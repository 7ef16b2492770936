import Mathlib.Tactic.IntervalCases
import SloPPC603.Lsu.Order

/-!
# Removal behind a faulting access

On the edge a fault is taken the younger accesses of P1, P2, Q and the store queue
are marked killed, the older ones and the retired stores' writes are not.  Two
corners of the unit miss it: a store that moves from P1 to Q on that edge keeps a
live copy in Q, and a store in Q that was queued behind a load which has since left
P2 is still marked young, so that a younger FP load's fault takes it.

* `faultSerial` — the access whose fault is taken on the edge.
* `Precise` — what the removal should be.
* `Aligned` — the edge is none of the two corners.
* `removal_precise` — on every edge of every run, the one exactly when the other.
-/

namespace SloPPC603
namespace Lsu

open Clocked (Run)

/-- The access whose fault is taken on the edge: handed over with its response,
answered to the FPU as a fault, punted or set aside. -/
def faultSerial (cfg : Config) (s : State) (i : Input) : Option ℕ :=
  if p1Punt s i then some (p1Head s).serial
  else if doom cfg s i then some (p2Head s).serial
  else none

/-- An access in P1, P2 or Q. -/
def InUnit (s : State) (e : Entry) : Prop :=
  e ∈ s.p1 ∨ (e ∈ s.p2 ∧ e.write = false) ∨ s.q = some e

/-- The edge removes exactly what is younger than the access `f`. -/
structure Precise (cfg : Config) (s : State) (i : Input) (f : ℕ) : Prop where
  younger : ∀ e, InUnit (step cfg s i) e → f < e.serial → e.killed = true
  youngerStore : ∀ c ∈ (step cfg s i).sq, c.committed = false → f < c.serial → c.killed = true
  /-- An older access is marked only by a recovery. -/
  older : ∀ e, InUnit (step cfg s i) e → e.serial < f → e.killed = true →
    killedNow i e.producer = true ∨ ∃ d, InUnit s d ∧ d.serial = e.serial ∧ d.killed = true
  olderStore : ∀ c ∈ (step cfg s i).sq, c.committed = false → c.serial < f → c.killed = true →
    killedNow i c.producer = true ∨ ∃ d ∈ s.sq, d.serial = c.serial ∧ d.killed = true
  /-- A retired store's write is not marked. -/
  write : ∀ x ∈ (step cfg s i).p2, x.write = true → x.killed = false
  retired : ∀ c ∈ (step cfg s i).sq, c.committed = true → c.killed = true →
    ∃ d ∈ s.sq, d.serial = c.serial ∧ d.killed = true

/-- On the edge no store moves to the queue, and a store in Q that is marked young is
so in the store queue. -/
structure Aligned (cfg : Config) (s : State) (i : Input) : Prop where
  queue : p1Queue cfg s i = false
  young : fpFault cfg s i = true → (p2Head s).passed = true → s.q.any (qLive i) = true →
    s.qYoung = true → s.sq.getLast?.any SqEntry.young = true

variable {cfg : Config} {s : State} {i : Input} {f : ℕ}

/-! ## Faults -/

section Faults

theorem doom_of_punt (h : p1Punt s i = true) : doom cfg s i = true := by simp [doom, h]

/-- What a punt says of the unit. -/
theorem punt_spec (h : p1Punt s i = true) : p1Valid s = true ∧ s.p2 = [] ∧ s.q = none ∧
    (p1Head s).fast = false := by
  simp only [p1Punt, p2Valid, Bool.and_eq_true, Bool.not_eq_true', Bool.not_eq_false',
    List.isEmpty_iff, Option.isNone_iff_eq_none] at h
  tauto

/-- The accesses whose fault is taken in P2: not a write, live, at the head. -/
theorem p2_fault_spec (hI : OrderInv s) (hdoom : doom cfg s i = true)
    (hpunt : p1Punt s i = false) : p2Valid s = true ∧ (p2Head s).write = false ∧
      p2Live s i = true ∧ rspOk i = false ∧
      (((p2Head s).passed = false ∧ sqDoom cfg s i = true) ∨
        ((p2Head s).passed = true ∧ sqDoom cfg s i = false ∧ youngDoom cfg s i = true)) := by
  have hnowrite : p2Valid s = true → ((p2Head s).fp = true ∨ (p2Head s).passed = true) →
      (p2Head s).write = false := by
    intro hvalid hor
    by_contra hw
    obtain ⟨hfp, hpassed, -⟩ := hI.writes _ (p2Head_mem hvalid) (by simpa using hw)
    rw [hfp, hpassed] at hor
    simp at hor
  rw [doom, hpunt, Bool.or_false, Bool.or_eq_true, Bool.or_eq_true] at hdoom
  rcases hdoom with (hadopt | hfp) | hredo
  · rw [Bool.and_eq_true] at hadopt
    obtain ⟨hvalid, -, hw, hpassed, hlive, hok⟩ := p2Adopt_spec hadopt.2
    exact ⟨hvalid, hw, hlive, hok, Or.inl ⟨hpassed, by simp [sqDoom, hadopt.1, hadopt.2]⟩⟩
  · have hspec := hfp
    simp only [fpFault, Bool.and_eq_true, Bool.not_eq_true'] at hspec
    have hvalid := (p2Retire_spec hspec.1.1.1).1
    refine ⟨hvalid, hnowrite hvalid (Or.inl hspec.1.1.2), hspec.2, hspec.1.2, ?_⟩
    have hnot : p2Adopt s i = false := by
      by_contra ha
      rw [(p2Adopt_spec (by simpa using ha)).2.1] at hspec
      simp at hspec
    cases hp : (p2Head s).passed with
    | false => exact Or.inl ⟨rfl, by simp [sqDoom, hfp, hp]⟩
    | true => exact Or.inr ⟨rfl, by simp [sqDoom, hnot, hp], by simp [youngDoom, hfp]⟩
  · have hspec := hredo
    simp only [redoSet, Bool.and_eq_true, Bool.not_eq_true'] at hspec
    have hvalid := (p2Retire_spec hspec.1.1.1.1).1
    have hpassed := hspec.1.1.2
    refine ⟨hvalid, hnowrite hvalid (Or.inr hpassed), hspec.2, hspec.1.2, ?_⟩
    have hnot : p2Adopt s i = false := by
      by_contra ha
      rw [(p2Adopt_spec (by simpa using ha)).2.2.2.1] at hpassed
      cases hpassed
    exact Or.inr ⟨hpassed, by simp [sqDoom, hnot, hpassed], by simp [youngDoom, hredo]⟩

theorem faultSerial_spec (h : faultSerial cfg s i = some f) : doom cfg s i = true ∧
    ((p1Punt s i = true ∧ f = (p1Head s).serial) ∨
      (p1Punt s i = false ∧ f = (p2Head s).serial)) := by
  unfold faultSerial at h
  split_ifs at h with hpunt hdoom
  · exact ⟨doom_of_punt hpunt, Or.inl ⟨hpunt, (Option.some_inj.1 h).symm⟩⟩
  · rw [Bool.not_eq_true] at hpunt
    exact ⟨hdoom, Or.inr ⟨hpunt, (Option.some_inj.1 h).symm⟩⟩

/-- Nothing in P1 or P2 is older than the access whose fault is taken. -/
theorem le_of_fault (hI : OrderInv s) (h : faultSerial cfg s i = some f) {e : Entry}
    (he : e ∈ s.p1 ∨ (e ∈ s.p2 ∧ e.write = false)) : f ≤ e.serial := by
  have hle : ∀ {a b : Entry}, Before a.key b.key → a.serial ≤ b.serial := by
    intro a b hab
    rcases hab with hlt | ⟨heq, -⟩
    · exact le_of_lt hlt
    · exact le_of_eq heq
  obtain ⟨hdoom, ⟨hpunt, rfl⟩ | ⟨hpunt, rfl⟩⟩ := faultSerial_spec h
  · obtain ⟨hvalid, hnil, -⟩ := punt_spec hpunt
    rcases he with he | ⟨he, -⟩
    · have hline := hI.line
      rw [Lsu.line, List.map_append, List.pairwise_append] at hline
      have hp1 := hline.2.1
      rw [p1_eq hvalid] at hp1 he
      rw [List.map_cons, List.pairwise_cons] at hp1
      rcases List.mem_cons.1 he with rfl | htail
      · exact le_rfl
      · exact hle (hp1.1 _ (List.mem_map_of_mem htail))
    · rw [hnil] at he
      exact absurd he List.not_mem_nil
  · obtain ⟨hvalid, hw, -⟩ := p2_fault_spec hI hdoom hpunt
    rcases he with he | ⟨he, hew⟩
    · exact hle (p2_before_p1 hI (p2Head_mem hvalid) hw he)
    · have hline := hI.line
      rw [Lsu.line, List.map_append, List.pairwise_append] at hline
      have hp2 := hline.1
      rw [p2_eq hvalid] at hp2 he
      rw [List.filter_cons_of_pos (by simp [hw]), List.map_cons, List.pairwise_cons] at hp2
      rcases List.mem_cons.1 he with rfl | htail
      · exact le_rfl
      · exact hle (hp2.1 _ (List.mem_map_of_mem
          (List.mem_filter.2 ⟨htail, by rw [hew]; rfl⟩)))

/-- No write fails on the edge. -/
theorem storeError_of_fault (hI : OrderInv s) (hdoom : doom cfg s i = true) :
    storeError cfg s i = false := by
  by_contra herr
  simp only [Bool.not_eq_false, storeError, Bool.and_eq_true] at herr
  cases hpunt : p1Punt s i with
  | true =>
    have hvalid := (p2Retire_spec herr.1.1).1
    rw [p2Valid, (punt_spec hpunt).2.1] at hvalid
    cases hvalid
  | false =>
    rw [(p2_fault_spec hI hdoom hpunt).2.1] at herr
    simp at herr

/-- What Q holds over an edge on which a fault is taken and nothing queues: the
faulting access is an FP load that answers the FPU, and the store is marked. -/
theorem q_of_fault (hI : OrderInv s) (h : faultSerial cfg s i = some f)
    (hqueue : p1Queue cfg s i = false) {e' : Entry} (hq : qNext cfg s i = some e') :
    ∃ e c, s.q = some e ∧ e'.serial = e.serial ∧ e'.producer = e.producer ∧
      e'.killed = (e.killed || sqDoom cfg s i || killedNow i e.producer ||
        (s.qYoung && youngDoom cfg s i)) ∧
      qLive i e = true ∧ fpFault cfg s i = true ∧ s.sq.getLast? = some c ∧
      c.serial = e.serial ∧ c.killed = false ∧ c.committed = false ∧
      (c.young = true → s.qYoung = true) ∧ Placed (p2Head s) c ∧ f = (p2Head s).serial := by
  obtain ⟨hdoom, hcase⟩ := faultSerial_spec h
  rw [qNext, hqueue, if_neg Bool.false_ne_true] at hq
  split_ifs at hq with hpop
  obtain ⟨e, he, rfl⟩ := Option.map_eq_some_iff.1 hq
  simp only [qPop, he, Option.any_some, Bool.or_eq_true, Bool.not_eq_true', not_or,
    Bool.not_eq_false] at hpop
  obtain ⟨hlive, hresult⟩ := hpop
  obtain ⟨hpunt, hf⟩ : p1Punt s i = false ∧ f = (p2Head s).serial := by
    rcases hcase with ⟨hpunt, -⟩ | hp2
    · rw [(punt_spec hpunt).2.2.1] at he
      cases he
    · exact hp2
  obtain ⟨hvalid, hw, hp2live, hok, -⟩ := p2_fault_spec hI hdoom hpunt
  have hfp : (p2Head s).fp = true := by
    simp only [p2Result, hok, Bool.and_eq_true, Bool.false_or] at hresult
    exact hresult.2
  have hfault : fpFault cfg s i = true := by
    simp only [p2Result, Bool.and_eq_true] at hresult
    rw [fpFault, hresult.1.1.1, hfp, hok, hp2live]
    rfl
  have hhead : (p2Head s).killed = false := by
    simp only [p2Live, Bool.and_eq_true, Bool.not_eq_true'] at hp2live
    exact hp2live.1
  have hek : e.killed = false := by
    simp only [qLive, Bool.and_eq_true, Bool.not_eq_true'] at hlive
    exact hlive.1
  rcases hI.inQ e he hek with ⟨c, hlast, hser, -, hck, hcc, hyoung⟩ | hall
  · exact ⟨e, c, he, rfl, rfl, rfl, hlive, hfault, hlast, hser, hck, hcc, hyoung,
      hI.placed _ (p2Head_mem hvalid) hw hhead c (List.mem_of_getLast? hlast) hck hcc, hf⟩
  · rw [hall _ (p2Head_mem hvalid) hw] at hhead
    cases hhead

/-- A queued store that a fault leaves unretired, against the faulting access. -/
theorem sq_of_fault (hI : OrderInv s) (h : faultSerial cfg s i = some f) {c : SqEntry}
    (hc : c ∈ s.sq) (hck : c.killed = false) (hcc : c.committed = false) :
    (p1Punt s i = true ∧ c.serial < f) ∨
      (f = (p2Head s).serial ∧ Placed (p2Head s) c ∧
        (((p2Head s).passed = false ∧ sqDoom cfg s i = true) ∨
          ((p2Head s).passed = true ∧ sqDoom cfg s i = false ∧ youngDoom cfg s i = true))) := by
  obtain ⟨hdoom, ⟨hpunt, rfl⟩ | ⟨hpunt, rfl⟩⟩ := faultSerial_spec h
  · exact Or.inl ⟨hpunt, hI.queued c hc _ (p1Head_mem (punt_spec hpunt).1)⟩
  · obtain ⟨hvalid, hw, hlive, -, hcase⟩ := p2_fault_spec hI hdoom hpunt
    have hhead : (p2Head s).killed = false := by
      simp only [p2Live, Bool.and_eq_true, Bool.not_eq_true'] at hlive
      exact hlive.1
    exact Or.inr ⟨rfl, hI.placed _ (p2Head_mem hvalid) hw hhead c hc hck hcc, hcase⟩

theorem lt_of_placed {x : Entry} {c : SqEntry} (h : Placed x c) (hp : x.passed = false) :
    x.serial < c.serial := by
  rw [Placed, hp, Bool.false_and, if_neg Bool.false_ne_true] at h
  exact h

theorem placed_young {x : Entry} {c : SqEntry} (h : Placed x c) (hp : x.passed = true) :
    if c.young then x.serial < c.serial else c.serial < x.serial := by
  rw [Placed, hp, Bool.true_and] at h
  cases hy : c.young with
  | true => simpa [hy] using h
  | false => simpa [hy] using h

end Faults

/-! ## Precision -/

section Precision

/-- The access whose fault is taken was dispatched. -/
theorem lt_serials_of_fault (hI : OrderInv s) (h : faultSerial cfg s i = some f) :
    f < s.serials := by
  obtain ⟨hdoom, ⟨hpunt, rfl⟩ | ⟨hpunt, rfl⟩⟩ := faultSerial_spec h
  · exact hI.bound _ (List.mem_append_right _ (p1Head_mem (punt_spec hpunt).1))
  · obtain ⟨hvalid, hw, -⟩ := p2_fault_spec hI hdoom hpunt
    refine hI.bound _ (List.mem_append_left _ (List.mem_filter.2 ⟨p2Head_mem hvalid, ?_⟩))
    rw [hw]
    rfl

/-- Nothing in P1 or P2 after the edge is older than the access whose fault is taken. -/
theorem le_of_fault_step (hI : OrderInv s) (hrun : i.rstN = true)
    (h : faultSerial cfg s i = some f) {e : Entry}
    (he : e ∈ (step cfg s i).p1 ∨ (e ∈ (step cfg s i).p2 ∧ e.write = false)) :
    f ≤ e.serial := by
  rcases he with he | ⟨he, hw⟩
  · rcases mem_p1_step hrun he with ⟨d, hd, hfixed, -⟩ | ⟨d, hd, hfixed, -⟩
    · rw [serial_of_fixed hfixed]
      exact le_of_fault hI h (Or.inl (mem_p1_of_left hd))
    · rw [serial_of_fixed hfixed, (dispatched_spec hd).2.1]
      exact le_of_lt (lt_serials_of_fault hI h)
  · rcases mem_p2_step hrun he with ⟨x, hx, rfl⟩ | ⟨hfire, rfl⟩
    · have hle := le_of_fault hI h (e := x) (Or.inr ⟨hx, hw⟩)
      exact hle
    · have hwrite : (pushed cfg s i).write = false := hw
      rcases hfire with hp1 | hsq
      · have hfixed := (pushed_of_fire (sqFire_of_p1Fire hp1)).1
        have hser : (p2Next cfg s i (pushed cfg s i)).serial = (p1Head s).serial :=
          serial_of_fixed hfixed
        rw [hser]
        exact le_of_fault hI h (Or.inl (p1Head_mem (p1Fire_spec hp1).2.2.1))
      · rw [(pushed_of_sqFire hsq).1] at hwrite
        cases hwrite

/-- How the edge marks a queued store that it leaves unretired. -/
theorem sqNext_killed {c : SqEntry} (h : (sqNext cfg s i c).committed = false) :
    c.committed = false ∧ (sqNext cfg s i c).killed =
      (c.killed || sqDoom cfg s i || killedNow i c.producer ||
        (c.young && youngDoom cfg s i)) := by
  have hold : c.committed = false := by
    simp only [sqNext, Bool.or_eq_false_iff] at h
    exact h.1
  have hsame : (sqNext cfg s i c).killed = (c.killed || (!c.committed && (sqDoom cfg s i ||
      killedNow i c.producer || (c.young && youngDoom cfg s i))) ||
      ((sqNext cfg s i c).committed && storeError cfg s i)) := rfl
  refine ⟨hold, ?_⟩
  rw [hsame, h, hold]
  simp [Bool.or_assoc]

/-- The stores queued after an edge on which no store moves were queued before. -/
theorem mem_sq_of_not_queue (hrun : i.rstN = true) (hqueue : p1Queue cfg s i = false)
    {c' : SqEntry} (h : c' ∈ (step cfg s i).sq) : ∃ c ∈ s.sq, c' = sqNext cfg s i c := by
  rcases mem_sq_step hrun h with hold | ⟨hq, -⟩
  · exact hold
  · rw [hqueue] at hq
    cases hq

theorem qNext_of_step (hrun : i.rstN = true) {e : Entry} (h : (step cfg s i).q = some e) :
    qNext cfg s i = some e := by
  rw [(step_running hrun).2.2.2.1] at h
  split_ifs at h
  exact h

theorem younger_of_aligned (hI : OrderInv s) (hrun : i.rstN = true)
    (h : faultSerial cfg s i = some f) (hA : Aligned cfg s i) {e : Entry}
    (he : InUnit (step cfg s i) e) (hlt : f < e.serial) : e.killed = true := by
  have hdoom := (faultSerial_spec h).1
  rcases he with he | ⟨he, hw⟩ | he
  · rcases mem_p1_step hrun he with ⟨d, -, -, hk⟩ | ⟨d, -, -, hk⟩ <;> simp [hk, hdoom]
  · exact p2Killed_of_doom hrun hdoom e he hw
  · obtain ⟨d, c, -, hser, -, hk, -, hfault, -, hcser, -, -, hyoung, hplaced, rfl⟩ :=
      q_of_fault hI h hA.queue (qNext_of_step hrun he)
    rw [hk]
    cases hp : (p2Head s).passed with
    | false => simp [sqDoom, hfault, hp]
    | true =>
      have hside := placed_young hplaced hp
      split_ifs at hside with hcy
      · simp [hyoung hcy, youngDoom, hfault]
      · omega

theorem youngerStore_of_aligned (hI : OrderInv s) (hrun : i.rstN = true)
    (h : faultSerial cfg s i = some f) (hA : Aligned cfg s i) {c : SqEntry}
    (hc : c ∈ (step cfg s i).sq) (hcc : c.committed = false) (hlt : f < c.serial) :
    c.killed = true := by
  obtain ⟨c, hcs, rfl⟩ := mem_sq_of_not_queue hrun hA.queue hc
  obtain ⟨hold, hk⟩ := sqNext_killed hcc
  have hser : f < c.serial := hlt
  rw [hk]
  cases hck : c.killed with
  | true => rfl
  | false =>
    rcases sq_of_fault hI h hcs hck hold with ⟨-, hlt'⟩ | ⟨rfl, hplaced, hcase⟩
    · omega
    · rcases hcase with ⟨-, hd⟩ | ⟨hp, -, hd⟩
      · simp [hd]
      · have hside := placed_young hplaced hp
        split_ifs at hside with hcy
        · simp [hcy, hd]
        · omega

theorem older_of_aligned (hI : OrderInv s) (hrun : i.rstN = true)
    (h : faultSerial cfg s i = some f) (hA : Aligned cfg s i) {e : Entry}
    (he : InUnit (step cfg s i) e) (hlt : e.serial < f) (hk : e.killed = true) :
    killedNow i e.producer = true ∨
      ∃ d, InUnit s d ∧ d.serial = e.serial ∧ d.killed = true := by
  have hq : ∀ e, (step cfg s i).q = some e → e.serial < f → e.killed = true →
      killedNow i e.producer = true ∨
        ∃ d, InUnit s d ∧ d.serial = e.serial ∧ d.killed = true := by
    intro e he hlt hk
    obtain ⟨d, c, hd, hser, hprod, hek, hlive, hfault, hlast, hcser, -, -, hyoung, hplaced,
      rfl⟩ := q_of_fault hI h hA.queue (qNext_of_step hrun he)
    rw [hek] at hk
    cases hdk : d.killed with
    | true => exact Or.inr ⟨d, Or.inr (Or.inr hd), hser.symm, hdk⟩
    | false =>
      left
      rw [hprod]
      cases hp : (p2Head s).passed with
      | false =>
        have hside := lt_of_placed hplaced hp
        omega
      | true =>
        have hside := placed_young hplaced hp
        have hcy : c.young = false := by
          by_contra hcy
          rw [if_pos (by simpa using hcy)] at hside
          omega
        -- a store marked young in Q only is the second corner
        have hqy : s.qYoung = false := by
          by_contra hqy
          have hlast' := hA.young hfault hp (by rw [hd]; exact hlive) (by simpa using hqy)
          rw [hlast, Option.any_some, hcy] at hlast'
          exact Bool.false_ne_true hlast'
        have hno : sqDoom cfg s i = false := by
          simp only [fpFault, Bool.and_eq_true] at hfault
          simp only [sqDoom, hp, Bool.not_true, Bool.and_false, Bool.or_false]
          simp [p2Adopt, hp]
        simpa [hdk, hqy, hno] using hk
  rcases he with he | he | he
  · have hle := le_of_fault_step hI hrun h (Or.inl he)
    omega
  · have hle := le_of_fault_step hI hrun h (Or.inr he)
    omega
  · exact hq e he hlt hk

theorem olderStore_of_aligned (hI : OrderInv s) (hrun : i.rstN = true)
    (h : faultSerial cfg s i = some f) (hA : Aligned cfg s i) {c : SqEntry}
    (hc : c ∈ (step cfg s i).sq) (hcc : c.committed = false) (hlt : c.serial < f)
    (hk : c.killed = true) :
    killedNow i c.producer = true ∨ ∃ d ∈ s.sq, d.serial = c.serial ∧ d.killed = true := by
  obtain ⟨c, hcs, rfl⟩ := mem_sq_of_not_queue hrun hA.queue hc
  obtain ⟨hold, hck⟩ := sqNext_killed hcc
  have hser : c.serial < f := hlt
  rw [hck] at hk
  cases hdk : c.killed with
  | true => exact Or.inr ⟨c, hcs, rfl, hdk⟩
  | false =>
    left
    show killedNow i c.producer = true
    rcases sq_of_fault hI h hcs hdk hold with ⟨hpunt, -⟩ | ⟨rfl, hplaced, hcase⟩
    · have hvalid : p2Valid s = false := by rw [p2Valid, (punt_spec hpunt).2.1]; rfl
      have hno : sqDoom cfg s i = false ∧ youngDoom cfg s i = false := by
        simp [sqDoom, youngDoom, fpFault, redoSet, p2Retire, p2Adopt, rspMine, rspOwner, hvalid]
      simpa [hdk, hno] using hk
    · rcases hcase with ⟨hp, -⟩ | ⟨hp, hno, hd⟩
      · have hside := lt_of_placed hplaced hp
        omega
      · have hside := placed_young hplaced hp
        have hcy : c.young = false := by
          by_contra hcy
          rw [if_pos (by simpa using hcy)] at hside
          omega
        simpa [hdk, hno, hcy] using hk

/-- A retired store is not marked by the edge. -/
theorem retired_of_aligned (hI : OrderInv s) (hrun : i.rstN = true)
    (h : faultSerial cfg s i = some f) (hA : Aligned cfg s i) {c : SqEntry}
    (hc : c ∈ (step cfg s i).sq) (hcc : c.committed = true) (hk : c.killed = true) :
    ∃ d ∈ s.sq, d.serial = c.serial ∧ d.killed = true := by
  obtain ⟨c, hcs, rfl⟩ := mem_sq_of_not_queue hrun hA.queue hc
  refine ⟨c, hcs, rfl, ?_⟩
  by_contra hdk
  have herr := storeError_of_fault hI (faultSerial_spec h).1
  simp only [sqNext, herr, Bool.and_false, Bool.or_false] at hk hcc
  rw [hk] at hcc
  simp only [Bool.not_true, Bool.false_and, Bool.or_false] at hcc
  simp [hcc, hdk] at hk

/-- **Off the corners the removal is precise.** -/
theorem precise_of_aligned (hI : OrderInv s) (hrun : i.rstN = true)
    (h : faultSerial cfg s i = some f) (hA : Aligned cfg s i) : Precise cfg s i f where
  younger _ he hlt := younger_of_aligned hI hrun h hA he hlt
  youngerStore _ hc hcc hlt := youngerStore_of_aligned hI hrun h hA hc hcc hlt
  older _ he hlt hk := older_of_aligned hI hrun h hA he hlt hk
  olderStore _ hc hcc hlt hk := olderStore_of_aligned hI hrun h hA hc hcc hlt hk
  write x hx hw := (writes_step hI hrun x hx hw).2.2
  retired _ hc hcc hk := retired_of_aligned hI hrun h hA hc hcc hk

/-- **In the corners it is not.** -/
theorem aligned_of_precise (hI : OrderInv s) (hrun : i.rstN = true)
    (hsq : s.q ≠ none → cfg.storeQueue = true) (h : faultSerial cfg s i = some f)
    (hP : Precise cfg s i f) : Aligned cfg s i := by
  obtain ⟨hdoom, hcase⟩ := faultSerial_spec h
  have hnoqueue : p1Queue cfg s i = false := by
    by_contra hq
    rw [Bool.not_eq_false] at hq
    obtain ⟨hvalid, -, hfast, hsplit, hlive, -, -, -, -, hcfg, -⟩ := p1Queue_spec hq
    have hstep : (step cfg s i).q = some (p1Head s) := by
      rw [(step_running hrun).2.2.2.1, if_pos hcfg, qNext, if_pos hq]
    have hlt : f < (p1Head s).serial := by
      rcases hcase with ⟨hpunt, -⟩ | ⟨hpunt, rfl⟩
      · rw [(punt_spec hpunt).2.2.2] at hfast
        cases hfast
      · obtain ⟨hp2, hw, -⟩ := p2_fault_spec hI hdoom hpunt
        rcases p2_before_p1 hI (p2Head_mem hp2) hw (p1Head_mem hvalid) with hlt | ⟨-, -, hbeat⟩
        · exact hlt
        · cases hsplit.symm.trans hbeat
    rw [hP.younger _ (Or.inr (Or.inr hstep)) hlt] at hlive
    cases hlive
  refine ⟨hnoqueue, ?_⟩
  intro hfault hp hany hqy
  rw [Option.any_eq_true] at hany
  obtain ⟨e, he, hlive⟩ := hany
  have hspec := hfault
  simp only [fpFault, Bool.and_eq_true, Bool.not_eq_true'] at hspec
  have hvalid := (p2Retire_spec hspec.1.1.1).1
  have hpunt : p1Punt s i = false := by
    by_contra hpunt
    rw [p2Valid, (punt_spec (by simpa using hpunt)).2.1] at hvalid
    cases hvalid
  have hw := (p2_fault_spec hI hdoom hpunt).2.1
  have hresult : p2Result cfg s i = true := by
    rw [p2Result, hspec.1.1.1, hw, hspec.2, hspec.1.1.2]
    simp
  have hpop : qPop cfg s i = false := by
    rw [qPop, he, Option.any_some, hlive, hresult]
    rfl
  obtain ⟨e', hq'⟩ : ∃ e', qNext cfg s i = some e' := by
    rw [qNext, hnoqueue, hpop, he]
    exact ⟨_, rfl⟩
  have hstep : (step cfg s i).q = some e' := by
    rw [(step_running hrun).2.2.2.1, if_pos (hsq (by rw [he]; simp)), hq']
  obtain ⟨d, c, hd, hser, hprod, hk, -, -, hlast, hcser, -, -, -, hplaced, rfl⟩ :=
    q_of_fault hI h hnoqueue hq'
  obtain rfl : e = d := Option.some_inj.1 (he.symm.trans hd)
  rw [hlast, Option.any_some]
  by_contra hcy
  have hside := placed_young hplaced hp
  rw [if_neg hcy] at hside
  have hmarked : e'.killed = true := by
    rw [hk, hqy, youngDoom, hfault]
    simp
  simp only [qLive, Bool.and_eq_true, Bool.not_eq_true'] at hlive
  rcases hP.older e' (Or.inr (Or.inr hstep)) (by omega) hmarked with hnow | ⟨b, hb, hbser, hbk⟩
  · rw [hprod, hlive.2] at hnow
    cases hnow
  · rcases hb with hb | hb | hb
    · have hle := le_of_fault hI h (Or.inl hb)
      omega
    · have hle := le_of_fault hI h (Or.inr hb)
      omega
    · obtain rfl : e = b := Option.some_inj.1 (he.symm.trans hb)
      rw [hlive.1] at hbk
      cases hbk

theorem storeQueue_of_q (r : Run (machine cfg)) (n : ℕ) (h : (r.state n).q ≠ none) :
    cfg.storeQueue = true := by
  cases n with
  | zero =>
    rw [Run.state_zero, show r.start = resetState from r.initial] at h
    exact absurd rfl h
  | succ n =>
    by_contra hcfg
    apply h
    show (step cfg (r.state n) (r.input n)).q = none
    unfold step
    split_ifs <;> rfl

/-- **Removal behind a faulting access.**  On every edge of every run on which an
access's fault is taken, exactly what is younger is removed, if and only if no store
queues on the edge and the store in Q is not wrongly marked young. -/
theorem removal_precise (cfg : Config) (r : Run (machine cfg)) (n : ℕ)
    (h : r.Obeys (Legal cfg) n) (k : ℕ) (hk : k < n) (f : ℕ)
    (hfault : faultSerial cfg (r.state k) (r.input k) = some f) :
    Precise cfg (r.state k) (r.input k) f ↔ Aligned cfg (r.state k) (r.input k) := by
  have hI := orderInv_run (h.mono (le_of_lt hk))
  have hrun := (h k hk).running
  constructor
  · exact aligned_of_precise hI hrun (storeQueue_of_q r k) hfault
  · exact precise_of_aligned hI hrun hfault

/-- A load is dispatched and accepted, a store behind it dispatched, and the load
answers with an error that the lane takes over; the store moves to the queue on that
edge if its translation has been confirmed. -/
def adoptInputs (confirmed : Bool) : ℕ → Input
  | 0 => { dispatchValid := true, uop := .loadWord, producer := ⟨0, 1⟩ }
  | 1 => { reqReady := true, dispatchValid := true, uop := .storeWord, producer := ⟨1, 1⟩,
           ea := 0x100 }
  | _ => { rspValid := true, rspError := true, adoptReady := true, chkOk := confirmed }

/-- The run of these inputs from reset. -/
def adoptRun (confirmed : Bool) : Run (machine queueConfig) := ⟨resetState, rfl, adoptInputs confirmed⟩

theorem adoptRun_obeys (confirmed : Bool) : (adoptRun confirmed).Obeys (Legal queueConfig) 3 := by
  intro k hk
  cases confirmed <;> interval_cases k <;> decide

/-- **A store escapes to Q.**  Its copy there stays live behind the load whose fault
the lane has taken. -/
theorem store_escapes_to_q : (adoptRun true).Obeys (Legal queueConfig) 3 ∧
    faultSerial queueConfig ((adoptRun true).state 2) ((adoptRun true).input 2) = some 0 ∧
    ¬ Precise queueConfig ((adoptRun true).state 2) ((adoptRun true).input 2) 0 := by
  refine ⟨adoptRun_obeys true, by decide, fun h => ?_⟩
  obtain ⟨e, he, hlt, hlive⟩ : ∃ e, (step queueConfig ((adoptRun true).state 2)
      ((adoptRun true).input 2)).q = some e ∧ 0 < e.serial ∧ e.killed = false :=
    ⟨_, rfl, by decide, by decide⟩
  rw [h.younger e (Or.inr (Or.inr he)) hlt] at hlive
  exact absurd hlive (by decide)

/-- With the store held back the removal is precise. -/
theorem removal_precise_adoptRun :
    Precise queueConfig ((adoptRun false).state 2) ((adoptRun false).input 2) 0 :=
  (removal_precise queueConfig (adoptRun false) 3 (adoptRun_obeys false) 2 (by decide) 0
    (by decide)).2 ⟨by decide, by decide⟩

end Precision

end Lsu
end SloPPC603
