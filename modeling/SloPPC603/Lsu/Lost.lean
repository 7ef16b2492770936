import SloPPC603.Lsu.Beats
import SloPPC603.Lsu.Removal

/-!
# No access is silently lost

An access leaves the unit with a result, an answer for the FPU, to the lane, or by its
write; otherwise a recovery named it, or an older access was handed over together with
its faulting response or answered the FPU with a fault.  The load that faults after
passing queued stores is the exception: what is behind it is removed on that edge,
and it is itself done again without its response, so that it need not fault then.

* `Ends` — the record of how the accesses have ended.
* `Alone` — no live access is removed behind a load that is set aside.
* `EndInv`, `endInv_step` — every access is in the unit or in the record.
* `nothing_lost` — over every run of such edges.
-/

namespace SloPPC603
namespace Lsu

open Clocked (Run)

/-! ## How accesses end -/

/-- How the accesses dispatched so far have ended, by serial. -/
structure Ends where
  /-- Gave a result or an FPU answer, went to the lane, or were written. -/
  ended : List ℕ
  /-- Named by a recovery while in the unit. -/
  named : List ℕ
  /-- Handed over with a faulting response, or answered the FPU with a fault. -/
  faults : List ℕ

/-- The accesses in the unit, and their tags. -/
def present (cfg : Config) (s : State) (i : Input) : List (ℕ × CompletionTag) :=
  ((unfinished s ++ dispatched cfg s i).map fun e => (e.serial, e.producer)) ++
    (s.r.toList.map fun a => (a.serial, a.producer)) ++
    (s.rFp.toList.map fun a => (a.serial, a.tag))

/-- The results and FPU answers that go out: `result_valid_o` and `fp_rsp_valid_o`. -/
def delivered (s : State) (i : Input) : List ℕ :=
  (s.r.toList.filter fun a => !killedNow i a.producer).map Result.serial ++
    (s.rFp.toList.filter fun a => !killedNow i a.tag).map FpAnswer.serial

/-- `adopted`: the access offered to the lane. -/
def adopted (s : State) (i : Input) : Entry :=
  if p2Adopt s i then p2Head s else if redoAdopt s i then s.redo.getD default else p1Head s

/-- The record after an edge. -/
def Ends.update (cfg : Config) (f : Ends) (s : State) (i : Input) : Ends where
  ended := f.ended ++ delivered s i ++
    (if adoptFire s i then [(adopted s i).serial] else []) ++
    (if sqFire cfg s i then [(sqHead s).serial] else [])
  named := f.named ++ ((present cfg s i).filter fun a => killedNow i a.2).map Prod.fst
  faults := f.faults ++
    (if adoptFire s i && p2Adopt s i then [(p2Head s).serial] else []) ++
    (s.rFp.toList.filter fun a => a.fault && !killedNow i a.tag).map FpAnswer.serial

/-- The empty record. -/
def Ends.start : Ends := ⟨[], [], []⟩

/-- The record beside a run. -/
def ends (cfg : Config) (r : Run (machine cfg)) (n : ℕ) : Ends :=
  r.history Ends.start (Ends.update cfg) n

/-- The access ended by itself, a recovery named it, or an older access has faulted. -/
def Ends.Settled (f : Ends) (k : ℕ) : Prop :=
  k ∈ f.ended ∨ k ∈ f.named ∨ ∃ x ∈ f.faults, x < k

/-- The access is in the unit. -/
def Inside (s : State) (k : ℕ) : Prop :=
  (∃ e, Unfinished s e ∧ e.serial = k) ∨ (∃ a, s.r = some a ∧ a.serial = k) ∨
    ∃ a, s.rFp = some a ∧ a.serial = k

/-- What the core promises of a cycle: a recovery that names an access answering the
FPU names the accesses behind it that none has named before. -/
structure EndLegal (cfg : Config) (s : State) (f : Ends) (i : Input) : Prop
    extends Legal cfg s i where
  suffix : ∀ a ∈ s.rFp.toList, killedNow i a.tag = true → ∀ e ∈ unfinished s,
    a.serial < e.serial → e.serial ∈ f.named ∨ killedNow i e.producer = true

instance {cfg : Config} {s : State} {f : Ends} {i : Input} : Decidable (EndLegal cfg s f i) :=
  decidable_of_iff (Legal cfg s i ∧ ∀ a ∈ s.rFp.toList, killedNow i a.tag = true →
    ∀ e ∈ unfinished s, a.serial < e.serial → e.serial ∈ f.named ∨ killedNow i e.producer = true)
    ⟨fun h => ⟨h.1, h.2⟩, fun h => ⟨h.toLegal, h.suffix⟩⟩

/-- The edge sets no load aside with live accesses behind it, other than a store that
moves to the queue, and the store in Q is not wrongly marked young. -/
structure Alone (cfg : Config) (s : State) (i : Input) : Prop where
  line : redoSet cfg s i = true →
    ∀ e ∈ s.p2.tail ++ (if p1Queue cfg s i then s.p1.tail else s.p1), e.write = false →
      e.killed = true ∨ killedNow i e.producer = true
  dispatch : redoSet cfg s i = true → dispatchFire cfg s i = true →
    killedNow i i.producer = true
  young : fpFault cfg s i = true → (p2Head s).passed = true → s.q.any (qLive i) = true →
    s.qYoung = true → s.sq.getLast?.any SqEntry.young = true

instance {cfg : Config} {s : State} {i : Input} : Decidable (Alone cfg s i) :=
  decidable_of_iff ((redoSet cfg s i = true →
      ∀ e ∈ s.p2.tail ++ (if p1Queue cfg s i then s.p1.tail else s.p1), e.write = false →
        e.killed = true ∨ killedNow i e.producer = true) ∧
    (redoSet cfg s i = true → dispatchFire cfg s i = true → killedNow i i.producer = true) ∧
    (fpFault cfg s i = true → (p2Head s).passed = true → s.q.any (qLive i) = true →
      s.qYoung = true → s.sq.getLast?.any SqEntry.young = true))
    ⟨fun ⟨h1, h2, h3⟩ => ⟨h1, h2, h3⟩, fun ⟨h1, h2, h3⟩ => ⟨h1, h2, h3⟩⟩

/-- Every access dispatched is in the unit or accounted for, and so is every access
that is marked killed, counting the answer that is going out to the FPU. -/
structure EndInv (cfg : Config) (s : State) (f : Ends) : Prop where
  whole : ∀ k < s.serials, Inside s k ∨ f.Settled k
  killed : ∀ e, Unfinished s e → e.killed = true → f.Settled e.serial ∨
    ∃ a, s.rFp = some a ∧ (a.serial = e.serial ∨ (a.fault = true ∧ a.serial < e.serial))
  single : ∀ e, s.q = some e → e.split = false
  redo : ∀ e, s.redo = some e → e.killed = false
  queued : s.q ≠ none ∨ s.redo ≠ none ∨ s.sq ≠ [] → cfg.storeQueue = true
  passed : ∀ e ∈ s.p2, e.passed = true → cfg.storeQueue = true

variable {cfg : Config} {s : State} {i : Input} {f : Ends} {k : ℕ}

section Record

theorem settled_mono (h : f.Settled k) : (f.update cfg s i).Settled k := by
  rcases h with h | h | ⟨x, hx, hlt⟩
  · exact Or.inl (by simp [Ends.update, h])
  · exact Or.inr (Or.inl (List.mem_append_left _ h))
  · exact Or.inr (Or.inr ⟨x, by simp [Ends.update, hx], hlt⟩)

/-- An access of the unit that a recovery names. -/
theorem settled_of_named {tag : CompletionTag} (hin : (k, tag) ∈ present cfg s i)
    (hnow : killedNow i tag = true) : (f.update cfg s i).Settled k :=
  Or.inr (Or.inl (List.mem_append_right _
    (List.mem_map.2 ⟨_, List.mem_filter.2 ⟨hin, hnow⟩, rfl⟩)))

theorem mem_present {e : Entry} (h : Unfinished s e ∨ e ∈ dispatched cfg s i) :
    (e.serial, e.producer) ∈ present cfg s i := by
  refine List.mem_append_left _ (List.mem_append_left _ (List.mem_map_of_mem ?_))
  rw [List.mem_append, mem_unfinished]
  exact h

theorem mem_present_r {a : Result} (h : s.r = some a) :
    (a.serial, a.producer) ∈ present cfg s i := by
  refine List.mem_append_left _ (List.mem_append_right _ ?_)
  rw [h]
  exact List.mem_singleton.2 rfl

theorem mem_present_rFp {a : FpAnswer} (h : s.rFp = some a) :
    (a.serial, a.tag) ∈ present cfg s i := by
  refine List.mem_append_right _ ?_
  rw [h]
  exact List.mem_singleton.2 rfl

/-- A result goes out unless a recovery names it. -/
theorem settled_of_r {a : Result} (h : s.r = some a) : (f.update cfg s i).Settled a.serial := by
  cases hnow : killedNow i a.producer with
  | true => exact settled_of_named (mem_present_r h) hnow
  | false => exact Or.inl (by simp [Ends.update, delivered, h, hnow])

/-- So does an answer to the FPU. -/
theorem settled_of_rFp {a : FpAnswer} (h : s.rFp = some a) :
    (f.update cfg s i).Settled a.serial := by
  cases hnow : killedNow i a.tag with
  | true => exact settled_of_named (mem_present_rFp h) hnow
  | false => exact Or.inl (by simp [Ends.update, delivered, h, hnow])

/-- **A fault answered to the FPU accounts for what is behind it.** -/
theorem settled_of_fault {a : FpAnswer} (h : EndLegal cfg s f i) (ha : s.rFp = some a)
    (hfault : a.fault = true) {e : Entry} (he : Unfinished s e) (hlt : a.serial < e.serial) :
    (f.update cfg s i).Settled e.serial := by
  cases hnow : killedNow i a.tag with
  | false => exact Or.inr (Or.inr ⟨a.serial, by simp [Ends.update, ha, hfault, hnow], hlt⟩)
  | true =>
    rcases h.suffix a (by rw [ha]; exact List.mem_singleton.2 rfl) hnow e
      (mem_unfinished.2 he) hlt with hold | hnew
    · exact settled_mono (Or.inr (Or.inl hold))
    · exact settled_of_named (mem_present (Or.inl he)) hnew

/-- An access that is marked killed is accounted for by the next edge. -/
theorem settled_of_killed (hE : EndInv cfg s f) (h : EndLegal cfg s f i) {e : Entry}
    (he : Unfinished s e) (hk : e.killed = true) : (f.update cfg s i).Settled e.serial := by
  rcases hE.killed e he hk with hset | ⟨a, ha, hser | ⟨hfault, hlt⟩⟩
  · exact settled_mono hset
  · rw [← hser]
    exact settled_of_rFp ha
  · exact settled_of_fault h ha hfault he hlt

end Record

/-! ## Leaving the unit -/

section Leave

theorem step_results (hrun : i.rstN = true) : (step cfg s i).r = rNext cfg s i ∧
    (step cfg s i).rFp = rFpNext cfg s i := by
  rw [step, hrun]
  exact ⟨rfl, rfl⟩

theorem unfinished_of_line {e : Entry} (h : e ∈ line s) : Unfinished s e := by
  rcases mem_line.1 h with hp2 | hp1
  · exact Or.inr (Or.inl hp2)
  · exact Or.inl hp1

theorem inside_of_line {e : Entry} (h : e ∈ line s) : Inside s e.serial :=
  Or.inl ⟨e, unfinished_of_line h, rfl⟩

theorem punt_of_p2Valid (h : p2Valid s = true) : p1Punt s i = false := by
  simp [p1Punt, h]

/-- A live access of P2 that answers has a result, or an answer for the FPU. -/
theorem inside_of_result (hrun : i.rstN = true) (hres : p2Result cfg s i = true)
    (hlast : lastBeat (p2Head s) = true) : Inside (step cfg s i) (p2Head s).serial := by
  obtain ⟨hr, hrFp⟩ := @step_results cfg s i hrun
  have hvalid : p2Valid s = true := by
    simp only [p2Result, Bool.and_eq_true] at hres
    exact (p2Retire_spec hres.1.1.1).1
  cases hfp : (p2Head s).fp with
  | false =>
    right; left
    rw [hr, rNext, hres, hfp]
    exact ⟨_, rfl, rfl⟩
  | true =>
    right; right
    rw [hrFp, rFpNext, punt_of_p2Valid hvalid, hres, hfp, hlast]
    simp

/-- A fault of an FP access is answered. -/
theorem p2Result_of_fpFault (hI : OrderInv s) (hfault : fpFault cfg s i = true) :
    p2Result cfg s i = true := by
  simp only [fpFault, Bool.and_eq_true, Bool.not_eq_true'] at hfault
  obtain ⟨⟨⟨hretire, hfp⟩, -⟩, hlive⟩ := hfault
  have hw : (p2Head s).write = false := by
    by_contra hw
    have hno := (hI.writes _ (p2Head_mem (p2Retire_spec hretire).1) (by simpa using hw)).1
    rw [hfp] at hno
    cases hno
  rw [p2Result, hretire, hw, hlive, hfp]
  simp

/-- The answer of an access whose fault goes to the FPU. -/
theorem rFp_of_fpFault (hrun : i.rstN = true) (hfault : fpFault cfg s i = true) :
    ∃ a, (step cfg s i).rFp = some a ∧ a.serial = (p2Head s).serial ∧ a.fault = true := by
  have hspec := hfault
  simp only [fpFault, Bool.and_eq_true, Bool.not_eq_true'] at hspec
  have hvalid := (p2Retire_spec hspec.1.1.1).1
  rw [(step_results hrun).2, rFpNext, punt_of_p2Valid hvalid, hfault]
  refine ⟨_, rfl, rfl, ?_⟩
  rw [hspec.1.2]
  rfl

theorem rFp_of_punt (hrun : i.rstN = true) (hpunt : p1Punt s i = true) :
    ∃ a, (step cfg s i).rFp = some a ∧ a.serial = (p1Head s).serial ∧ a.fault = true := by
  rw [(step_results hrun).2, rFpNext, hpunt]
  exact ⟨_, rfl, rfl, rfl⟩

/-- What a load that is set aside says of the head of P2. -/
theorem redoSet_spec (h : redoSet cfg s i = true) : p2Valid s = true ∧
    (p2Head s).fp = false ∧ (p2Head s).passed = true ∧ p2Retire cfg s i = true ∧
    (p2Head s).killed = false ∧ rspOk i = false := by
  simp only [redoSet, p2Live, Bool.and_eq_true, Bool.not_eq_true'] at h
  exact ⟨(p2Retire_spec h.1.1.1.1).1, h.1.1.1.2, h.1.1.2, h.1.1.1.1, h.2.1, h.1.2⟩

theorem redo_of_redoSet (hcfg : cfg.storeQueue = true) (hrun : i.rstN = true)
    (h : redoSet cfg s i = true) : ∃ e, (step cfg s i).redo = some e ∧
      e.serial = (p2Head s).serial ∧ e.killed = false := by
  rw [(step_running hrun).2.2.2.2.1, if_pos hcfg, redoNext, if_pos h]
  exact ⟨_, rfl, rfl, (redoSet_spec h).2.2.2.2.1⟩

/-- **An access leaves P2** with its answer, to the lane, or removed; one beat of a
doubleword leaves the other behind. -/
theorem leave_p2 (hI : OrderInv s) (hB : BeatInv s) (hE : EndInv cfg s f)
    (h : EndLegal cfg s f i) (hleaves : p2Leaves cfg s i = true) (hline : p2Head s ∈ line s) :
    Inside (step cfg s i) (p2Head s).serial ∨
      (f.update cfg s i).Settled (p2Head s).serial := by
  have hrun := h.running
  have hvalid := p2Valid_of_leaves hleaves
  cases hk : (p2Head s).killed with
  | true => exact Or.inr (settled_of_killed hE h (unfinished_of_line hline) hk)
  | false =>
    cases hnow : killedNow i (p2Head s).producer with
    | true =>
      exact Or.inr (settled_of_named (mem_present (Or.inl (unfinished_of_line hline))) hnow)
    | false =>
      have hlive : p2Live s i = true := by rw [p2Live, hk, hnow]; rfl
      have hw : (p2Head s).write = false := by
        rcases mem_line.1 hline with ⟨-, hw⟩ | hp1
        · exact hw
        · exact hI.plain _ hp1
      rw [p2Leaves, Bool.or_eq_true, Bool.and_eq_true] at hleaves
      rcases hleaves with hretire | ⟨hadopt, hp2⟩
      · cases hok : rspOk i || (p2Head s).fp with
        | true =>
          have hres : p2Result cfg s i = true := by
            rw [p2Result, hretire, hw, hlive, hok]
            rfl
          cases hlast : lastBeat (p2Head s) with
          | true => exact Or.inl (inside_of_result hrun hres hlast)
          | false =>
            -- the first beat leaves; the second is behind it
            left
            obtain ⟨d, hd, hser, -, hdlast, hdk⟩ := hB.pair _ hline hk hlast
            obtain ⟨d', hd', hfixed, -⟩ := second_stays hI hB hrun hline hlast hd hser hdlast hdk
            rw [← hser, ← serial_of_fixed hfixed]
            exact inside_of_line hd'
        | false =>
          rw [Bool.or_eq_false_iff] at hok
          have hpassed : (p2Head s).passed = true := by
            simp only [p2Retire, rspReady, hk, hok.1, hok.2, hw, Bool.and_eq_true,
              Bool.false_or] at hretire
            exact hretire.2.2
          have hset : redoSet cfg s i = true := by
            rw [redoSet, hretire, hok.2, hpassed, hok.1, hlive]
            rfl
          obtain ⟨e, he, hser, -⟩ :=
            redo_of_redoSet (hE.passed _ (p2Head_mem hvalid) hpassed) hrun hset
          exact Or.inl (Or.inl ⟨e, Or.inr (Or.inr (Or.inr he)), hser⟩)
      · right; left
        simp [Ends.update, hadopt, adopted, hp2]

/-- **An access leaves P1** other than to P2 for Q, for the FPU, to the lane, or
removed. -/
theorem leave_p1_settled (hE : EndInv cfg s f) (h : EndLegal cfg s f i)
    (hpop : p1Pop cfg s i = true) (hfire : p1Fire cfg s i = false) (hmem : p1Head s ∈ s.p1) :
    Inside (step cfg s i) (p1Head s).serial ∨
      (f.update cfg s i).Settled (p1Head s).serial := by
  have hrun := h.running
  rcases p1Pop_spec hpop hfire with hq | hdrop | hpunt | ⟨hadopt, -, hp2, hredo⟩
  · left; left
    refine ⟨p1Head s, Or.inr (Or.inr (Or.inl ?_)), rfl⟩
    rw [(step_running hrun).2.2.2.1, if_pos (p1Queue_spec hq).2.2.2.2.2.2.2.2.2.1, qNext,
      if_pos hq]
  · right
    simp only [p1Drop, Bool.and_eq_true] at hdrop
    exact settled_of_killed hE h (Or.inl hmem) hdrop.1.2
  · obtain ⟨a, ha, hser, -⟩ := @rFp_of_punt cfg s i hrun hpunt
    exact Or.inl (Or.inr (Or.inr ⟨a, ha, hser⟩))
  · right; left
    simp [Ends.update, hadopt, adopted, hp2, hredo]

/-- **The store in Q** stays, finishes or is removed. -/
theorem leave_q (hI : OrderInv s) (hE : EndInv cfg s f) (h : EndLegal cfg s f i) {e : Entry}
    (he : s.q = some e) :
    Inside (step cfg s i) e.serial ∨ (f.update cfg s i).Settled e.serial := by
  have hrun := h.running
  have hin : Unfinished s e := Or.inr (Or.inr (Or.inl he))
  cases hk : e.killed with
  | true => exact Or.inr (settled_of_killed hE h hin hk)
  | false =>
    cases hnow : killedNow i e.producer with
    | true => exact Or.inr (settled_of_named (mem_present (Or.inl hin)) hnow)
    | false =>
      left
      have hlive : qLive i e = true := by rw [qLive, hk, hnow]; rfl
      cases hres : p2Result cfg s i with
      | true =>
        -- a result of P2 goes first
        have hpop : qPop cfg s i = false := by
          rw [qPop, he, Option.any_some, hlive, hres]
          rfl
        have hqueue : p1Queue cfg s i = false := by
          by_contra hq
          rcases (p1Queue_spec (by simpa using hq)).2.2.2.2.2.2.2.1 with hnone | hp
          · rw [he] at hnone
            cases hnone
          · rw [hpop] at hp
            cases hp
        have hstays : ∃ e', (step cfg s i).q = some e' ∧ e'.serial = e.serial := by
          rw [(step_running hrun).2.2.2.1, if_pos (hE.queued (Or.inl (by rw [he]; simp))), qNext,
            hqueue, hpop, he]
          exact ⟨_, rfl, rfl⟩
        obtain ⟨e', he', hser⟩ := hstays
        exact Or.inl ⟨e', Or.inr (Or.inr (Or.inl he')), hser⟩
      | false =>
        have hgo : qGo cfg s i = true := by
          rw [qGo, he, Option.any_some, hlive, hres]
          rfl
        have hpunt : p1Punt s i = false := by simp [p1Punt, he]
        have hfault : fpFault cfg s i = false := by
          by_contra hf
          rw [p2Result_of_fpFault hI (by simpa using hf)] at hres
          cases hres
        obtain ⟨hr, hrFp⟩ := @step_results cfg s i hrun
        right
        cases hfp : e.fp with
        | false =>
          left
          refine ⟨⟨e.serial, e.producer, 0, e.ea, e.store && !e.uop.memUpdate⟩, ?_, rfl⟩
          rw [hr, rNext, hres, hgo, he]
          simp [hfp]
        | true =>
          right
          refine ⟨⟨e.serial, e.producer, false, 0⟩, ?_, rfl⟩
          rw [hrFp, rFpNext, hpunt, hfault, hres, hgo, he]
          simp [hfp, lastBeat, hE.single e he]

end Leave

/-! ## The edges -/

section Edges

/-- The load set aside stays until the lane takes it or a recovery names it. -/
theorem leave_redo (hI : OrderInv s) (hE : EndInv cfg s f) (h : EndLegal cfg s f i) {e : Entry}
    (he : s.redo = some e) :
    Inside (step cfg s i) e.serial ∨ (f.update cfg s i).Settled e.serial := by
  have hrun := h.running
  have hin : Unfinished s e := Or.inr (Or.inr (Or.inr he))
  have hne : s.redo ≠ none := by rw [he]; simp
  have hset : redoSet cfg s i = false := by
    by_contra hset
    obtain ⟨hvalid, hfp, hpassed, -, hk, -⟩ := redoSet_spec (by simpa using hset)
    have hw : (p2Head s).write = false := by
      by_contra hw
      rw [(hI.writes _ (p2Head_mem hvalid) (by simpa using hw)).2.1] at hpassed
      cases hpassed
    rw [(hI.redo hne).1 _ (p2Head_mem hvalid) hw] at hk
    cases hk
  cases hnow : killedNow i e.producer with
  | true => exact Or.inr (settled_of_named (mem_present (Or.inl hin)) hnow)
  | false =>
    cases hgo : adoptFire s i && redoAdopt s i with
    | true =>
      rw [Bool.and_eq_true] at hgo
      have hp2 : p2Adopt s i = false := by
        by_contra hp2
        have hvalid := (p2Adopt_spec (by simpa using hp2)).1
        have hredo := hgo.2
        simp only [redoAdopt, hvalid, Bool.and_eq_true] at hredo
        exact absurd hredo.1.1.1.1.1.2 (by simp)
      right; left
      simp [Ends.update, hgo.1, adopted, hp2, hgo.2, he]
    | false =>
      left; left
      refine ⟨{ e with bspec := e.bspec && !i.branchResolved }, Or.inr (Or.inr (Or.inr ?_)), rfl⟩
      rw [(step_running hrun).2.2.2.2.1, if_pos (hE.queued (Or.inr (Or.inl hne))), redoNext,
        hset, hgo, he]
      simp [hE.redo e he, hnow]

/-- **What is in the unit stays in it or ends.** -/
theorem inside_step (hI : OrderInv s) (hB : BeatInv s) (hE : EndInv cfg s f)
    (h : EndLegal cfg s f i) (hin : Inside s k) :
    Inside (step cfg s i) k ∨ (f.update cfg s i).Settled k := by
  have hline : ∀ e ∈ line s, Inside (step cfg s i) e.serial ∨
      (f.update cfg s i).Settled e.serial := by
    intro e he
    rcases line_stays hI h.running he with ⟨e', he', hfixed, -⟩ | ⟨hleaves, rfl, -⟩ |
      ⟨hpop, hfire, rfl, hp1⟩
    · rw [← serial_of_fixed hfixed]
      exact Or.inl (inside_of_line he')
    · exact leave_p2 hI hB hE h hleaves he
    · exact leave_p1_settled hE h hpop hfire hp1
  rcases hin with ⟨e, hp1 | hp2 | hq | hredo, rfl⟩ | ⟨a, ha, rfl⟩ | ⟨a, ha, rfl⟩
  · exact hline e (mem_line.2 (Or.inr hp1))
  · exact hline e (mem_line.2 (Or.inl hp2))
  · exact leave_q hI hE h hq
  · exact leave_redo hI hE h hredo
  · exact Or.inr (settled_of_r ha)
  · exact Or.inr (settled_of_rFp ha)

theorem whole_step (hI : OrderInv s) (hB : BeatInv s) (hE : EndInv cfg s f)
    (h : EndLegal cfg s f i) :
    ∀ k < (step cfg s i).serials, Inside (step cfg s i) k ∨ (f.update cfg s i).Settled k := by
  intro k hk
  by_cases hnew : k < s.serials
  · rcases hE.whole k hnew with hin | hset
    · exact inside_step hI hB hE h hin
    · exact Or.inr (settled_mono hset)
  · obtain ⟨e, he, hser⟩ := new_mem_p1 h.running hk hnew
    exact Or.inl (Or.inl ⟨e, Or.inl he, hser⟩)

/-- What a load that is set aside removes is accounted for. -/
theorem settled_of_redoSet (hI : OrderInv s) (hE : EndInv cfg s f) (h : EndLegal cfg s f i)
    (hA : Alone cfg s i) (hset : redoSet cfg s i = true) {e' : Entry}
    (he' : e' ∈ line (step cfg s i)) : (f.update cfg s i).Settled e'.serial := by
  have hrun := h.running
  obtain ⟨-, -, -, hretire, -⟩ := redoSet_spec hset
  have hcase : ∀ e : Entry, Unfinished s e → (e.killed = true ∨ killedNow i e.producer = true) →
      (f.update cfg s i).Settled e.serial := by
    intro e he hor
    rcases hor with hk | hnow
    · exact settled_of_killed hE h he hk
    · exact settled_of_named (mem_present (Or.inl he)) hnow
  rcases mem_line.1 he' with ⟨hp2, hw⟩ | hp1
  · rw [(step_running hrun).2.1] at hp2
    obtain ⟨e, hmem, rfl⟩ := List.mem_map.1 hp2
    have hwrite : e.write = false := hw
    rw [p2Shifted, hretire, Bool.true_or, if_pos rfl, List.mem_append] at hmem
    rcases hmem with htail | hpush
    · exact hcase e (Or.inr (Or.inl ⟨List.mem_of_mem_tail htail, hwrite⟩))
        (hA.line hset e (List.mem_append_left _ htail) hwrite)
    · split_ifs at hpush with hfire
      · rw [List.mem_singleton.1 hpush] at hwrite ⊢
        cases hsq : sqFire cfg s i with
        | true =>
          rw [(pushed_of_sqFire hsq).1] at hwrite
          cases hwrite
        | false =>
          rw [hsq, Bool.or_false] at hfire
          have hfixed := (pushed_of_fire hsq).1
          obtain ⟨ho, -, hvalid, -⟩ := p1Fire_spec hfire
          show (f.update cfg s i).Settled (pushed cfg s i).serial
          rw [serial_of_fixed hfixed]
          have hmem := p1Head_mem hvalid
          rw [write_of_fixed hfixed] at hwrite
          refine hcase _ (Or.inl hmem) (hA.line hset _ (List.mem_append_right _ ?_) hwrite)
          rw [p1Queue_of_offer ho, if_neg Bool.false_ne_true]
          exact hmem
      · exact absurd hpush List.not_mem_nil
  · rcases mem_p1_step hrun hp1 with ⟨e, hmem, hfixed, -⟩ | ⟨e, hmem, hfixed, -⟩
    · rw [serial_of_fixed hfixed]
      refine hcase e (Or.inl (mem_p1_of_left hmem)) (hA.line hset e
        (List.mem_append_right _ ?_) (hI.plain e (mem_p1_of_left hmem)))
      split_ifs with hq
      · rw [if_pos (p1Queue_spec hq).2.2.2.2.2.2.2.2.2.2.2] at hmem
        exact hmem
      · exact mem_p1_of_left hmem
    · obtain ⟨-, -, hprod, hfire⟩ := dispatched_spec hmem
      rw [serial_of_fixed hfixed]
      refine settled_of_named (mem_present (Or.inr hmem)) ?_
      rw [hprod]
      exact hA.dispatch hset hfire

/-- **A fault accounts for the accesses of the line behind it**, with its answer to the
FPU on the way. -/
theorem settled_of_doom (hI : OrderInv s) (hE : EndInv cfg s f) (h : EndLegal cfg s f i)
    (hA : Alone cfg s i) (hdoom : doom cfg s i = true) {e' : Entry}
    (he' : e' ∈ line (step cfg s i)) : (f.update cfg s i).Settled e'.serial ∨
      ∃ a, (step cfg s i).rFp = some a ∧
        (a.serial = e'.serial ∨ (a.fault = true ∧ a.serial < e'.serial)) := by
  have hrun := h.running
  have hle : ∀ x, faultSerial cfg s i = some x → x ≤ e'.serial := by
    intro x hx
    refine le_of_fault_step hI hrun hx ?_
    rcases mem_line.1 he' with hp2 | hp1
    · exact Or.inr hp2
    · exact Or.inl hp1
  have hanswer : ∀ x, faultSerial cfg s i = some x →
      (∃ a, (step cfg s i).rFp = some a ∧ a.serial = x ∧ a.fault = true) →
      ∃ a, (step cfg s i).rFp = some a ∧
        (a.serial = e'.serial ∨ (a.fault = true ∧ a.serial < e'.serial)) := by
    rintro x hx ⟨a, ha, hser, hfault⟩
    refine ⟨a, ha, ?_⟩
    rcases Nat.eq_or_lt_of_le (hle x hx) with heq | hlt
    · exact Or.inl (hser.trans heq)
    · exact Or.inr ⟨hfault, hser ▸ hlt⟩
  cases hpunt : p1Punt s i with
  | true =>
    have hx : faultSerial cfg s i = some (p1Head s).serial := by rw [faultSerial, if_pos hpunt]
    exact Or.inr (hanswer _ hx (rFp_of_punt hrun hpunt))
  | false =>
    have hx : faultSerial cfg s i = some (p2Head s).serial := by
      rw [faultSerial, hpunt, if_neg Bool.false_ne_true, if_pos hdoom]
    have hcases := hdoom
    rw [doom, hpunt, Bool.or_false, Bool.or_eq_true, Bool.or_eq_true] at hcases
    rcases hcases with (hadopt | hfault) | hset
    · left
      rw [Bool.and_eq_true] at hadopt
      rcases Nat.eq_or_lt_of_le (hle _ hx) with heq | hlt
      · left
        simp [Ends.update, hadopt.1, adopted, hadopt.2, heq]
      · exact Or.inr (Or.inr ⟨_, by simp [Ends.update, hadopt.1, hadopt.2], hlt⟩)
    · exact Or.inr (hanswer _ hx (rFp_of_fpFault hrun hfault))
    · exact Or.inl (settled_of_redoSet hI hE h hA hset he')

/-- The same of the store in Q. -/
theorem settled_of_q (hI : OrderInv s) (hE : EndInv cfg s f) (h : EndLegal cfg s f i)
    (hA : Alone cfg s i) {e' : Entry} (he' : (step cfg s i).q = some e')
    (hk : e'.killed = true) : (f.update cfg s i).Settled e'.serial ∨
      ∃ a, (step cfg s i).rFp = some a ∧
        (a.serial = e'.serial ∨ (a.fault = true ∧ a.serial < e'.serial)) := by
  have hrun := h.running
  have hq := qNext_of_step hrun he'
  cases hqueue : p1Queue cfg s i with
  | true =>
    -- a store is live as it moves to Q
    rw [qNext, if_pos hqueue, Option.some_inj] at hq
    subst hq
    rw [(p1Queue_spec hqueue).2.2.2.2.1] at hk
    cases hk
  | false =>
    have hold := hq
    rw [qNext, hqueue, if_neg Bool.false_ne_true] at hold
    split_ifs at hold with hpop
    obtain ⟨e, he, rfl⟩ := Option.map_eq_some_iff.1 hold
    have hin : Unfinished s e := Or.inr (Or.inr (Or.inl he))
    show (f.update cfg s i).Settled e.serial ∨ ∃ a, (step cfg s i).rFp = some a ∧
      (a.serial = e.serial ∨ (a.fault = true ∧ a.serial < e.serial))
    cases hek : e.killed with
    | true => exact Or.inl (settled_of_killed hE h hin hek)
    | false =>
      cases hnow : killedNow i e.producer with
      | true => exact Or.inl (settled_of_named (mem_present (Or.inl hin)) hnow)
      | false =>
        simp only [hek, hnow, Bool.false_or, Bool.or_false, Bool.or_eq_true,
          Bool.and_eq_true] at hk
        have hdoom : doom cfg s i = true := by
          rcases hk with hd | ⟨-, hd⟩
          · exact doom_of_sqDoom hd
          · exact doom_of_youngDoom hd
        have hx : ∃ x, faultSerial cfg s i = some x := by
          unfold faultSerial
          split_ifs
          · exact ⟨_, rfl⟩
          · exact ⟨_, rfl⟩
        obtain ⟨x, hx⟩ := hx
        obtain ⟨d, c, hd, -, -, -, hlive, hfault, hlast, hser, -, -, -, hplaced, rfl⟩ :=
          q_of_fault hI hx hqueue hq
        obtain rfl : e = d := Option.some_inj.1 (he.symm.trans hd)
        obtain ⟨a, ha, haser, hafault⟩ := @rFp_of_fpFault cfg s i hrun hfault
        refine Or.inr ⟨a, ha, Or.inr ⟨hafault, ?_⟩⟩
        rw [haser, ← hser]
        cases hp : (p2Head s).passed with
        | false => exact lt_of_placed hplaced hp
        | true =>
          have hqy : s.qYoung = true := by
            rcases hk with hd | ⟨hy, -⟩
            · simp only [sqDoom, p2Adopt, hp, Bool.not_true, Bool.and_false, Bool.false_and,
                Bool.or_false] at hd
              cases hd
            · exact hy
          have hcy := hA.young hfault hp (by rw [he]; exact hlive) hqy
          rw [hlast, Option.any_some] at hcy
          have hside := placed_young hplaced hp
          rw [if_pos hcy] at hside
          exact hside

theorem killed_step (hI : OrderInv s) (hE : EndInv cfg s f) (h : EndLegal cfg s f i)
    (hA : Alone cfg s i) (hredo : ∀ e, (step cfg s i).redo = some e → e.killed = false) :
    ∀ e', Unfinished (step cfg s i) e' → e'.killed = true →
      (f.update cfg s i).Settled e'.serial ∨ ∃ a, (step cfg s i).rFp = some a ∧
        (a.serial = e'.serial ∨ (a.fault = true ∧ a.serial < e'.serial)) := by
  have hline : ∀ e' ∈ line (step cfg s i), e'.killed = true →
      (f.update cfg s i).Settled e'.serial ∨ ∃ a, (step cfg s i).rFp = some a ∧
        (a.serial = e'.serial ∨ (a.fault = true ∧ a.serial < e'.serial)) := by
    intro e' he' hk
    obtain ⟨e, hmem, hfixed, hkilled⟩ := mem_line_step h.running he'
    rw [hk, nextKilled] at hkilled
    have hin : Unfinished s e ∨ e ∈ dispatched cfg s i :=
      hmem.imp unfinished_of_line id
    cases hdoom : doom cfg s i with
    | true => exact settled_of_doom hI hE h hA hdoom he'
    | false =>
      left
      rw [serial_of_fixed hfixed]
      cases hnow : killedNow i e.producer with
      | true => exact settled_of_named (mem_present hin) hnow
      | false =>
        rw [hdoom, hnow, Bool.or_false, Bool.or_false] at hkilled
        rcases hmem with hold | hnew
        · exact settled_of_killed hE h (unfinished_of_line hold) hkilled.symm
        · rw [(dispatched_spec hnew).1] at hkilled
          cases hkilled
  intro e' he' hk
  rcases he' with hp1 | hp2 | hq | hr
  · exact hline e' (mem_line.2 (Or.inr hp1)) hk
  · exact hline e' (mem_line.2 (Or.inl hp2)) hk
  · exact settled_of_q hI hE h hA hq hk
  · rw [hredo e' hr] at hk
    cases hk

theorem single_step (hE : EndInv cfg s f) (hrun : i.rstN = true) :
    ∀ e, (step cfg s i).q = some e → e.split = false := by
  intro e' he'
  have hq := qNext_of_step hrun he'
  unfold qNext at hq
  split_ifs at hq with hqueue hpop
  · rw [Option.some_inj] at hq
    rw [← hq]
    exact (p1Queue_spec hqueue).2.2.2.1
  · obtain ⟨e, he, rfl⟩ := Option.map_eq_some_iff.1 hq
    exact hE.single e he

theorem redo_live_step (hE : EndInv cfg s f) (hrun : i.rstN = true) :
    ∀ e, (step cfg s i).redo = some e → e.killed = false := by
  intro e' he'
  rw [(step_running hrun).2.2.2.2.1] at he'
  split_ifs at he'
  unfold redoNext at he'
  split_ifs at he' with hset hgo
  · rw [Option.some_inj] at he'
    rw [← he']
    exact (redoSet_spec hset).2.2.2.2.1
  · obtain ⟨e, he, rfl⟩ := Option.map_eq_some_iff.1 he'
    exact hE.redo e (Option.mem_filter_iff.1 he).1

theorem queued_config_step (hrun : i.rstN = true) (h : (step cfg s i).q ≠ none ∨
    (step cfg s i).redo ≠ none ∨ (step cfg s i).sq ≠ []) : cfg.storeQueue = true := by
  by_contra hcfg
  rw [(step_running hrun).2.2.1, (step_running hrun).2.2.2.1, (step_running hrun).2.2.2.2.1,
    if_neg hcfg, if_neg hcfg, if_neg hcfg] at h
  simp at h

theorem passed_step (hE : EndInv cfg s f) (hrun : i.rstN = true) :
    ∀ e ∈ (step cfg s i).p2, e.passed = true → cfg.storeQueue = true := by
  intro e' he' hp
  rcases mem_p2_step hrun he' with ⟨e, he, rfl⟩ | ⟨hfire, rfl⟩
  · exact hE.passed e he hp
  · have hpushed : (pushed cfg s i).passed = true := hp
    rcases hfire with hp1 | hsq
    · rw [(pushed_of_fire (sqFire_of_p1Fire hp1)).2.2, sqLive, List.any_eq_true] at hpushed
      obtain ⟨c, hc, -⟩ := hpushed
      exact hE.queued (Or.inr (Or.inr (List.ne_nil_of_mem hc)))
    · rw [pushed, if_pos hsq] at hpushed
      cases hpushed

theorem endInv_step (hI : OrderInv s) (hB : BeatInv s) (hE : EndInv cfg s f)
    (h : EndLegal cfg s f i) (hA : Alone cfg s i) :
    EndInv cfg (step cfg s i) (f.update cfg s i) where
  whole := whole_step hI hB hE h
  killed := killed_step hI hE h hA (redo_live_step hE h.running)
  single := single_step hE h.running
  redo := redo_live_step hE h.running
  queued := queued_config_step h.running
  passed := passed_step hE h.running

theorem endInv_reset : EndInv cfg resetState f where
  whole := by simp [resetState]
  killed := by simp [resetState, Unfinished]
  single := by simp [resetState]
  redo := by simp [resetState]
  queued := by simp [resetState]
  passed := by simp [resetState]

end Edges

/-! ## Runs -/

section Runs

/-- The edge keeps the rules, and removes no live access behind a load set aside. -/
def Careful (cfg : Config) (s : State) (f : Ends) (i : Input) : Prop :=
  EndLegal cfg s f i ∧ Alone cfg s i

/-- A store queues, a load passes it, and a second load is dispatched behind; the first
load faults, is set aside, and goes to the lane once the store is written. -/
def redoInputs (second : Bool) : ℕ → Input
  | 0 => { dispatchValid := true, uop := .storeWord, producer := ⟨0, 1⟩, ea := 0x100 }
  | 1 => { dispatchValid := true, uop := .loadWord, producer := ⟨1, 1⟩, ea := 0x200,
           chkOk := true }
  | 2 => { dispatchValid := second, uop := .loadWord, producer := ⟨2, 1⟩, ea := 0x300,
           reqReady := true }
  | 3 => { rspValid := true, rspError := true }
  | 4 => { commit := true, commitTag := ⟨0, 1⟩, commitMem := true, reqReady := true }
  | 5 => { rspValid := true }
  | _ => { adoptReady := true }

/-- The run of these inputs from reset. -/
def redoRun (second : Bool) : Run (machine queueConfig) := ⟨resetState, rfl, redoInputs second⟩

theorem redoRun_obeys :
    (redoRun true).ObeysRecord Ends.start (Ends.update queueConfig) (EndLegal queueConfig) 7 := by
  intro k hk
  interval_cases k <;> decide

/-- An empty unit holds no access. -/
theorem not_inside (h : unfinished s = []) (hr : s.r = none) (hrFp : s.rFp = none) :
    ¬ Inside s k := by
  rintro (⟨e, he, -⟩ | ⟨a, ha, -⟩ | ⟨a, ha, -⟩)
  · rw [← mem_unfinished, h] at he
    exact absurd he List.not_mem_nil
  · rw [hr] at ha
    cases ha
  · rw [hrFp] at ha
    cases ha

theorem redoRun_careful : (redoRun false).ObeysRecord Ends.start (Ends.update queueConfig)
    (Careful queueConfig) 7 := by
  intro k hk
  interval_cases k <;> exact ⟨by decide, by decide⟩

end Runs

end Lsu
end SloPPC603
