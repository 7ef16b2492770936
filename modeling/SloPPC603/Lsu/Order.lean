import SloPPC603.Lsu.Model

/-!
# Dispatch order in the load/store unit

P2 and then P1 hold the accesses in dispatch order; the store queue holds the queued
stores in dispatch order, all older than P1.  Between P2 and the store queue the
order is not positional: an access in P2 that passed no store is older than every
live store queued, and one that did pass stores is older than exactly the stores
marked young.

* `Legal` — what the rest of the core promises of a cycle.
* `line`, `line_step` — the accesses of P2 and P1 in order, and one edge on them.
* `OrderInv`, `orderInv_step` — the order, over a run.
-/

namespace SloPPC603
namespace Lsu

open Rename (Wake)

/-! ## Rules -/

/-- An access the unit has yet to finish, removed or not. -/
def Unfinished (s : State) (e : Entry) : Prop :=
  e ∈ s.p1 ∨ (e ∈ s.p2 ∧ e.write = false) ∨ s.q = some e ∨ s.redo = some e

/-- What the core promises of one cycle. -/
structure Legal (cfg : Config) (s : State) (i : Input) : Prop where
  running : i.rstN = true
  /-- Only an integer access may wait for its base. -/
  fpBase : i.fp = true → i.baseSnoop = false
  /-- The early value of a wake in time is its value. -/
  early : i.wake.valid = true → i.wake.late = false → i.wakeEarlyValue = i.wake.value
  early1 : i.wake1.valid = true → i.wake1.late = false → i.wake1EarlyValue = i.wake1.value
  /-- The ports finish different entries. -/
  wakes : i.wake.valid = true → i.wake1.valid = true → i.wake.producer ≠ i.wake1.producer
  /-- `memory commit without commit`. -/
  memory : i.commitMem = true → i.commit = true
  /-- An access retires finished. -/
  finished : i.commit = true → ∀ e, Unfinished s e → e.killed = false →
    e.producer ≠ i.commitTag
  /-- The tag of a dispatch is not in use. -/
  fresh : i.dispatchValid = true → ∀ e, Unfinished s e → e.killed = false →
    e.producer ≠ i.producer

variable {cfg : Config} {s : State} {i : Input}

/-- The unfinished accesses, in a list. -/
def unfinished (s : State) : List Entry :=
  s.p1 ++ (s.p2.filter fun e => !e.write) ++ s.q.toList ++ s.redo.toList

@[simp] theorem mem_unfinished {e : Entry} : e ∈ unfinished s ↔ Unfinished s e := by
  simp only [unfinished, Unfinished, List.mem_append, List.mem_filter, Option.mem_toList,
    Bool.not_eq_true', or_assoc]

instance : Decidable (Legal cfg s i) :=
  decidable_of_iff (i.rstN = true ∧ (i.fp = true → i.baseSnoop = false) ∧
    (i.wake.valid = true → i.wake.late = false → i.wakeEarlyValue = i.wake.value) ∧
    (i.wake1.valid = true → i.wake1.late = false → i.wake1EarlyValue = i.wake1.value) ∧
    (i.wake.valid = true → i.wake1.valid = true → i.wake.producer ≠ i.wake1.producer) ∧
    (i.commitMem = true → i.commit = true) ∧
    (i.commit = true → ∀ e ∈ unfinished s, e.killed = false → e.producer ≠ i.commitTag) ∧
    (i.dispatchValid = true → ∀ e ∈ unfinished s, e.killed = false → e.producer ≠ i.producer))
    (by
      simp only [mem_unfinished]
      constructor
      · rintro ⟨h1, h2, h3, h4, h5, h6, h7, h8⟩
        exact ⟨h1, h2, h3, h4, h5, h6, h7, h8⟩
      · rintro ⟨h1, h2, h3, h4, h5, h6, h7, h8⟩
        exact ⟨h1, h2, h3, h4, h5, h6, h7, h8⟩)

/-! ## One edge, field by field -/

section Fields

/-- An edge out of reset. -/
theorem step_running (h : i.rstN = true) :
    (step cfg s i).p1 = (p1Shifted cfg s i ++ dispatched cfg s i).map (p1Next cfg s i) ∧
      (step cfg s i).p2 = (p2Shifted cfg s i).map (p2Next cfg s i) ∧
      (step cfg s i).sq =
        (if cfg.storeQueue then (sqShifted cfg s i).map (sqNext cfg s i) else []) ∧
      (step cfg s i).q = (if cfg.storeQueue then qNext cfg s i else none) ∧
      (step cfg s i).redo = (if cfg.storeQueue then redoNext cfg s i else none) ∧
      (step cfg s i).offered = (offer cfg s i && !i.reqReady) ∧
      (step cfg s i).serials = s.serials + (dispatchFire cfg s i).toNat ∧
      (step cfg s i).qYoung = (if p1Queue cfg s i then p2Passed s else s.qYoung) := by
  rw [step, h]
  exact ⟨rfl, rfl, rfl, rfl, rfl, rfl, rfl, rfl⟩

/-- What no cycle rewrites of an access. -/
def Entry.fixed (e : Entry) : Entry :=
  { e with
    killed := false
    fast := false
    launched := false
    hold := false
    advance := false
    dataReady := false
    dataLate := false
    baseLate := false
    passed := false
    bspec := false
    baseWait := false
    ea := 0
    data := 0
    uop := default }

section Fixed

variable {d e : Entry}

theorem serial_of_fixed (h : d.fixed = e.fixed) : d.serial = e.serial :=
  show d.fixed.serial = e.fixed.serial by rw [h]

theorem split_of_fixed (h : d.fixed = e.fixed) : d.split = e.split :=
  show d.fixed.split = e.fixed.split by rw [h]

theorem store_of_fixed (h : d.fixed = e.fixed) : d.store = e.store :=
  show d.fixed.store = e.fixed.store by rw [h]

theorem fp_of_fixed (h : d.fixed = e.fixed) : d.fp = e.fp :=
  show d.fixed.fp = e.fixed.fp by rw [h]

theorem producer_of_fixed (h : d.fixed = e.fixed) : d.producer = e.producer :=
  show d.fixed.producer = e.fixed.producer by rw [h]

theorem write_of_fixed (h : d.fixed = e.fixed) : d.write = e.write :=
  show d.fixed.write = e.fixed.write by rw [h]

theorem second_of_fixed (h : d.fixed = e.fixed) : d.second = e.second :=
  show d.fixed.second = e.fixed.second by rw [h]

end Fixed

@[simp] theorem takeData_fixed (e : Entry) : (Entry.takeData i e).fixed = e.fixed := by
  unfold Entry.takeData
  split_ifs
  · rfl
  · rfl
  · split <;> rfl

@[simp] theorem takeBase_fixed (e : Entry) : (Entry.takeBase cfg i e).fixed = e.fixed := by
  unfold Entry.takeBase
  split_ifs
  · rfl
  · split <;> rfl
  · rfl

theorem takeData_killed (e : Entry) : (Entry.takeData i e).killed = e.killed := by
  unfold Entry.takeData
  split_ifs
  · rfl
  · rfl
  · split <;> rfl

theorem takeBase_killed (e : Entry) : (Entry.takeBase cfg i e).killed = e.killed := by
  unfold Entry.takeBase
  split_ifs
  · rfl
  · split <;> rfl
  · rfl

@[simp] theorem p1Next_fixed (e : Entry) : (p1Next cfg s i e).fixed = e.fixed := by
  rw [p1Next, takeBase_fixed, takeData_fixed]
  rfl

@[simp] theorem p1Next_killed (e : Entry) : (p1Next cfg s i e).killed =
    (e.killed || doom cfg s i || killedNow i e.producer) := by
  rw [p1Next, takeBase_killed, takeData_killed]

@[simp] theorem p2Next_fixed (e : Entry) : (p2Next cfg s i e).fixed = e.fixed := rfl

@[simp] theorem advanced_fixed (e : Entry) : e.advanced.fixed = e.fixed := by
  unfold Entry.advanced
  split_ifs <;> rfl

/-- The shift of P1 leaves its accesses as they are, in order. -/
theorem p1Shifted_map {β : Type*} (f : Entry → β) (hadv : ∀ e : Entry, f e.advanced = f e)
    (hhold : ∀ e : Entry, f { e with hold := false } = f e) :
    (p1Shifted cfg s i).map f = (if p1Pop cfg s i then s.p1.tail else s.p1).map f := by
  unfold p1Shifted
  split_ifs
  · cases s.p1.tail with
    | nil => rfl
    | cons e rest => simp only [List.map_cons, hadv]
  · cases s.p1 with
    | nil => rfl
    | cons e rest => simp only [List.map_cons, hhold]

/-- An access of P1 after the shift was there before. -/
theorem mem_p1Shifted {e' : Entry} (h : e' ∈ p1Shifted cfg s i) :
    ∃ e ∈ if p1Pop cfg s i then s.p1.tail else s.p1, e'.fixed = e.fixed ∧
      e'.killed = e.killed ∧ e'.baseWait = e.baseWait := by
  have hmap := @p1Shifted_map cfg s i _ (fun e : Entry => (e.fixed, e.killed, e.baseWait))
    (fun e => by unfold Entry.advanced; split_ifs <;> rfl) (fun e => rfl)
  have hin := List.mem_map_of_mem (f := fun e : Entry => (e.fixed, e.killed, e.baseWait)) h
  rw [hmap] at hin
  obtain ⟨e, he, heq⟩ := List.mem_map.1 hin
  simp only [Prod.mk.injEq] at heq
  exact ⟨e, he, heq.1.symm, heq.2.1.symm, heq.2.2.symm⟩

theorem mem_p1_of_left {e : Entry} (h : e ∈ if p1Pop cfg s i then s.p1.tail else s.p1) :
    e ∈ s.p1 := by
  split_ifs at h
  · exact List.mem_of_mem_tail h
  · exact h

/-- A dispatched access is live and carries the next serial. -/
theorem dispatched_spec {e : Entry} (h : e ∈ dispatched cfg s i) : e.killed = false ∧
    e.serial = s.serials ∧ e.producer = i.producer ∧ dispatchFire cfg s i = true := by
  unfold dispatched at h
  split_ifs at h with hfire
  · rcases List.mem_cons.1 h with rfl | hsecond
    · exact ⟨rfl, rfl, rfl, hfire⟩
    · rw [List.mem_singleton.1 hsecond]
      exact ⟨rfl, rfl, rfl, hfire⟩
  · rw [List.mem_singleton.1 h]
    exact ⟨rfl, rfl, rfl, hfire⟩
  · exact absurd h List.not_mem_nil

/-- The entries of P1 after the edge. -/
theorem mem_p1_step (h : i.rstN = true) {e' : Entry} (he : e' ∈ (step cfg s i).p1) :
    (∃ e ∈ if p1Pop cfg s i then s.p1.tail else s.p1, e'.fixed = e.fixed ∧
        e'.killed = (e.killed || doom cfg s i || killedNow i e.producer)) ∨
      (∃ e ∈ dispatched cfg s i, e'.fixed = e.fixed ∧
        e'.killed = (doom cfg s i || killedNow i e.producer)) := by
  rw [(step_running h).1] at he
  obtain ⟨e, hmem, rfl⟩ := List.mem_map.1 he
  rw [p1Next_fixed, p1Next_killed]
  rcases List.mem_append.1 hmem with hold | hnew
  · obtain ⟨d, hd, hfixed, hkilled, -⟩ := mem_p1Shifted hold
    exact Or.inl ⟨d, hd, hfixed, by rw [hkilled, producer_of_fixed hfixed]⟩
  · exact Or.inr ⟨e, hnew, rfl, by rw [(dispatched_spec hnew).1, Bool.false_or]⟩

/-- What the port accepts of P1 keeps its identity; a store queue write is a
write. -/
theorem pushed_of_fire (hsq : sqFire cfg s i = false) :
    (pushed cfg s i).fixed = (p1Head s).fixed ∧
      (pushed cfg s i).killed = (p1Head s).killed ∧ (pushed cfg s i).passed = sqLive s := by
  rw [pushed, hsq]
  exact ⟨rfl, rfl, rfl⟩

theorem pushed_of_sqFire (hsq : sqFire cfg s i = true) : (pushed cfg s i).write = true ∧
    (pushed cfg s i).serial = (sqHead s).serial ∧
    (pushed cfg s i).producer = (sqHead s).producer ∧ (pushed cfg s i).killed = false := by
  rw [pushed, hsq]
  exact ⟨rfl, rfl, rfl, rfl⟩

/-- The port takes one request. -/
theorem sqFire_of_p1Fire (h : p1Fire cfg s i = true) : sqFire cfg s i = false := by
  simp only [p1Fire, offer, Bool.and_eq_true, Bool.not_eq_true'] at h
  simp [sqFire, h.1.1.2]

/-- The entries of P2 after the edge. -/
theorem mem_p2_step (h : i.rstN = true) {e' : Entry} (he : e' ∈ (step cfg s i).p2) :
    (∃ e ∈ s.p2, e' = p2Next cfg s i e) ∨
      ((p1Fire cfg s i = true ∨ sqFire cfg s i = true) ∧
        e' = p2Next cfg s i (pushed cfg s i)) := by
  rw [(step_running h).2.1] at he
  obtain ⟨e, hmem, rfl⟩ := List.mem_map.1 he
  rcases List.mem_append.1 hmem with hold | hnew
  · left
    refine ⟨e, ?_, rfl⟩
    split_ifs at hold
    · exact List.mem_of_mem_tail hold
    · exact hold
  · split_ifs at hnew with hfire
    · rw [Bool.or_eq_true] at hfire
      exact Or.inr ⟨hfire, by rw [List.mem_singleton.1 hnew]⟩
    · exact absurd hnew List.not_mem_nil

/-- The stores queued after the edge. -/
theorem mem_sq_step (h : i.rstN = true) {c' : SqEntry} (hc : c' ∈ (step cfg s i).sq) :
    (∃ c ∈ s.sq, c' = sqNext cfg s i c) ∨
      (p1Queue cfg s i = true ∧ c' = sqNext cfg s i (added cfg s i)) := by
  rw [(step_running h).2.2.1] at hc
  split_ifs at hc
  · obtain ⟨c, hmem, rfl⟩ := List.mem_map.1 hc
    rcases List.mem_append.1 hmem with hold | hnew
    · left
      refine ⟨c, ?_, rfl⟩
      split_ifs at hold
      · exact List.mem_of_mem_tail hold
      · exact hold
    · split_ifs at hnew with hq
      · exact Or.inr ⟨hq, by rw [List.mem_singleton.1 hnew]⟩
      · exact absurd hnew List.not_mem_nil
  · exact absurd hc List.not_mem_nil

end Fields

/-! ## The heads -/

section Heads

theorem p1_eq (h : p1Valid s = true) : s.p1 = p1Head s :: s.p1.tail := by
  unfold p1Valid at h
  unfold p1Head
  cases hs : s.p1 with
  | nil => simp [hs] at h
  | cons e rest => rfl

theorem p2_eq (h : p2Valid s = true) : s.p2 = p2Head s :: s.p2.tail := by
  unfold p2Valid at h
  unfold p2Head
  cases hs : s.p2 with
  | nil => simp [hs] at h
  | cons e rest => rfl

theorem sq_eq (h : sqValid s = true) : s.sq = sqHead s :: s.sq.tail := by
  unfold sqValid at h
  unfold sqHead
  cases hs : s.sq with
  | nil => simp [hs] at h
  | cons e rest => rfl

theorem p1Valid_of_mem {e : Entry} (h : e ∈ s.p1) : p1Valid s = true := by
  cases hs : s.p1 with
  | nil =>
    rw [hs] at h
    exact absurd h List.not_mem_nil
  | cons x rest => simp [p1Valid, hs]

theorem p2Valid_of_mem {e : Entry} (h : e ∈ s.p2) : p2Valid s = true := by
  cases hs : s.p2 with
  | nil =>
    rw [hs] at h
    exact absurd h List.not_mem_nil
  | cons x rest => simp [p2Valid, hs]

theorem sqValid_of_mem {c : SqEntry} (h : c ∈ s.sq) : sqValid s = true := by
  cases hs : s.sq with
  | nil =>
    rw [hs] at h
    exact absurd h List.not_mem_nil
  | cons x rest => simp [sqValid, hs]

theorem p1Head_mem (h : p1Valid s = true) : p1Head s ∈ s.p1 := by
  rw [p1_eq h]
  exact List.mem_cons_self

theorem p2Head_mem (h : p2Valid s = true) : p2Head s ∈ s.p2 := by
  rw [p2_eq h]
  exact List.mem_cons_self

theorem sqHead_mem (h : sqValid s = true) : sqHead s ∈ s.sq := by
  rw [sq_eq h]
  exact List.mem_cons_self

/-- What an accepted offer of P1 says of the head. -/
theorem p1Fire_spec (h : p1Fire cfg s i = true) : offer cfg s i = true ∧ i.reqReady = true ∧
    p1Valid s = true ∧ p1Pop cfg s i = true := by
  have hpop : p1Pop cfg s i = true := by rw [p1Pop, h]; rfl
  simp only [p1Fire, Bool.and_eq_true] at h
  refine ⟨h.1, h.2, ?_, hpop⟩
  have hoffer := h.1
  simp only [offer, Bool.and_eq_true] at hoffer
  exact hoffer.1.1.1.1.2

/-- What a store being queued says of the head. -/
theorem p1Queue_spec (h : p1Queue cfg s i = true) : p1Valid s = true ∧
    (p1Head s).store = true ∧ (p1Head s).fast = true ∧ (p1Head s).split = false ∧
    (p1Head s).killed = false ∧ s.offered = false ∧ s.redo = none ∧
    (s.q = none ∨ qPop cfg s i = true) ∧ killedNow i (p1Head s).producer = false ∧
    cfg.storeQueue = true ∧ s.sq.length ≠ cfg.sqDepth ∧ p1Pop cfg s i = true := by
  have hpop : p1Pop cfg s i = true := by simp [p1Pop, h]
  simp only [p1Queue, p1Check, sqFull, Bool.and_eq_true, Bool.or_eq_true, Bool.not_eq_true',
    Option.isNone_iff_eq_none, decide_eq_false_iff_not] at h
  tauto

/-- A store that queues is not offered. -/
theorem offer_of_p1Queue (h : p1Queue cfg s i = true) : offer cfg s i = false := by
  obtain ⟨-, hstore, -, -, hlive, hoffered, -⟩ := p1Queue_spec h
  rw [offer, hlive, hstore, hoffered, h]
  simp

/-- A response is taken from the head of P2. -/
theorem p2Retire_spec (h : p2Retire cfg s i = true) :
    p2Valid s = true ∧ s.rspToLane = false ∧ i.rspValid = true := by
  simp only [p2Retire, rspMine, rspOwner, Bool.and_eq_true, Bool.not_eq_true'] at h
  exact ⟨h.1.1.1, h.1.1.2, h.1.2⟩

theorem p2Adopt_spec (h : p2Adopt s i = true) : p2Valid s = true ∧ (p2Head s).fp = false ∧
    (p2Head s).write = false ∧ (p2Head s).passed = false ∧ p2Live s i = true ∧
    rspOk i = false := by
  simp only [p2Adopt, rspMine, rspOwner, Bool.and_eq_true, Bool.not_eq_true'] at h
  tauto

end Heads

/-! ## The accesses in dispatch order -/

section Line

/-- The accesses of P2 and then P1. -/
def line (s : State) : List Entry := s.p2.filter (fun e => !e.write) ++ s.p1

/-- An access's place in dispatch order, and whether it is one beat of two. -/
def Entry.key (e : Entry) : ℕ × Bool := (e.serial, e.split)

theorem key_of_fixed {d e : Entry} (h : d.fixed = e.fixed) : d.key = e.key := by
  rw [Entry.key, Entry.key, serial_of_fixed h, split_of_fixed h]

theorem line_map_step {β : Type*} {f : Entry → β}
    (hf : ∀ d e : Entry, d.fixed = e.fixed → f d = f e) (h : i.rstN = true) :
    (line (step cfg s i)).map f = ((p2Shifted cfg s i).filter fun e => !e.write).map f ++
      ((if p1Pop cfg s i then s.p1.tail else s.p1).map f ++ (dispatched cfg s i).map f) := by
  obtain ⟨hp1, hp2, -⟩ := @step_running cfg s i h
  have hwrite : (fun e : Entry => !e.write) ∘ p2Next cfg s i = fun e => !e.write := rfl
  have hf2 : f ∘ p2Next cfg s i = f := funext fun e => hf _ _ (p2Next_fixed e)
  have hf1 : f ∘ p1Next cfg s i = f := funext fun e => hf _ _ (p1Next_fixed e)
  rw [line, hp1, hp2, List.map_append, List.filter_map, List.map_map, List.map_map, hwrite, hf2,
    hf1, List.map_append, p1Shifted_map f (fun e => hf _ _ (advanced_fixed e))
      fun e => hf _ _ rfl]

/-- **One edge keeps the order of the accesses**: it takes some out and appends the
one dispatched. -/
theorem line_step {β : Type*} {f : Entry → β}
    (hf : ∀ d e : Entry, d.fixed = e.fixed → f d = f e) (h : i.rstN = true) :
    ((line (step cfg s i)).map f).Sublist
      ((line s).map f ++ (dispatched cfg s i).map f) := by
  have hsub : (((if p2Retire cfg s i || (adoptFire s i && p2Adopt s i) then s.p2.tail
      else s.p2).filter fun e => !e.write).map f).Sublist
      ((s.p2.filter fun e => !e.write).map f) := by
    apply List.Sublist.map
    apply List.Sublist.filter
    split_ifs
    · exact List.tail_sublist _
    · exact List.Sublist.refl _
  rw [line_map_step hf h, p2Shifted, List.filter_append, List.map_append, line, List.map_append,
    List.append_assoc, List.append_assoc]
  refine List.Sublist.append hsub ?_
  by_cases hfire : p1Fire cfg s i = true
  · obtain ⟨-, -, hvalid, hpop⟩ := p1Fire_spec hfire
    have hsq := sqFire_of_p1Fire hfire
    have hfixed := (pushed_of_fire hsq).1
    rw [hfire, hpop, Bool.true_or, if_pos rfl, if_pos rfl]
    conv_rhs => rw [p1_eq hvalid]
    rw [List.map_cons, List.cons_append]
    have hle : (([pushed cfg s i].filter fun e => !e.write).map f).Sublist
        [f (p1Head s)] := by
      rw [← hf _ _ hfixed]
      exact (List.filter_sublist.map f)
    have happ := hle.append (List.Sublist.refl
      (s.p1.tail.map f ++ (dispatched cfg s i).map f))
    rw [List.singleton_append] at happ
    exact happ
  · rw [Bool.not_eq_true] at hfire
    have hnone : ((if p1Fire cfg s i || sqFire cfg s i then [pushed cfg s i]
        else []).filter fun e => !e.write) = [] := by
      rw [hfire, Bool.false_or]
      split_ifs with hsq
      · simp [(pushed_of_sqFire hsq).1]
      · rfl
    rw [hnone, List.map_nil, List.nil_append]
    refine List.Sublist.append ?_ (List.Sublist.refl _)
    apply List.Sublist.map
    split_ifs
    · exact List.tail_sublist _
    · exact List.Sublist.refl _

end Line

/-! ## The invariant -/

/-- One access is dispatched before another, or they are beats of one. -/
def Before (a b : ℕ × Bool) : Prop := a.1 < b.1 ∨ (a.1 = b.1 ∧ a.2 = true ∧ b.2 = true)

/-- An access in P2 against a queued store: one that passed no store is older, one
that did is older than the stores marked young and younger than the others. -/
def Placed (x : Entry) (c : SqEntry) : Prop :=
  if x.passed && !c.young then c.serial < x.serial else x.serial < c.serial

/-- The youngest queued store is the one in Q. -/
def Copy (s : State) (e : Entry) : Prop :=
  ∃ c, s.sq.getLast? = some c ∧ c.serial = e.serial ∧ c.producer = e.producer ∧
    c.killed = false ∧ c.committed = false ∧ (c.young = true → s.qYoung = true)

/-- Every access in P2 is removed. -/
def P2Killed (s : State) : Prop := ∀ x ∈ s.p2, x.write = false → x.killed = true

/-- The order the registers keep. -/
structure OrderInv (s : State) : Prop where
  line : ((line s).map Entry.key).Pairwise Before
  bound : ∀ e ∈ Lsu.line s, e.serial < s.serials
  sorted : (s.sq.map SqEntry.serial).Pairwise (· < ·)
  queued : ∀ c ∈ s.sq, ∀ e ∈ s.p1, c.serial < e.serial
  sqBound : ∀ c ∈ s.sq, c.serial < s.serials
  placed : ∀ x ∈ s.p2, x.write = false → x.killed = false →
    ∀ c ∈ s.sq, c.killed = false → c.committed = false → Placed x c
  /-- A standing load has no young store to pass. -/
  load : s.offered = true → (p1Head s).killed = false → (p1Head s).store = false →
    ∀ c ∈ s.sq, c.killed = false → c.young = false
  /-- A standing store stands alone. -/
  store : s.offered = true → (p1Head s).killed = false → (p1Head s).store = true → s.sq = []
  inQ : ∀ e, s.q = some e → e.killed = false → Copy s e ∨ P2Killed s
  redo : s.redo ≠ none → P2Killed s ∧ (s.offered = true → (p1Head s).killed = true)
  /-- Only an integer access waits for its base. -/
  base : ∀ e ∈ s.p1, e.fp = true → e.baseWait = false
  /-- P1 holds no write, and P2 no other write than a retired store's. -/
  plain : ∀ e ∈ s.p1, e.write = false
  writes : ∀ x ∈ s.p2, x.write = true → x.fp = false ∧ x.passed = false ∧ x.killed = false

theorem orderInv_reset : OrderInv resetState where
  line := List.Pairwise.nil
  bound := by simp [Lsu.line, resetState]
  sorted := List.Pairwise.nil
  queued := by simp [resetState]
  sqBound := by simp [resetState]
  placed := by simp [resetState]
  load := by simp [resetState]
  store := by simp [resetState]
  inQ := by simp [resetState]
  redo := by simp [resetState]
  base := by simp [resetState]
  plain := by simp [resetState]
  writes := by simp [resetState]

/-! ## The step lemmas -/

section Step

/-- An offer that is refused stands. -/
theorem p1Pop_of_stands (hI : OrderInv s) (ho : offer cfg s i = true)
    (hr : i.reqReady = false) : p1Pop cfg s i = false := by
  have hq : p1Queue cfg s i = false := by
    by_contra hq
    rw [Bool.not_eq_false] at hq
    rw [offer_of_p1Queue hq] at ho
    cases ho
  have hspec := ho
  simp only [offer, Bool.and_eq_true] at hspec
  have hvalid : p1Valid s = true := hspec.1.1.1.1.2
  have hfast : headFast cfg s i = true := hspec.1.1.1.2
  have hwait : (p1Head s).baseWait = false → (p1Head s).fast = true := by
    intro hw
    rw [headFast, hw, Bool.not_false, Bool.or_true, if_pos rfl] at hfast
    exact hfast
  have hpunt : p1Punt s i = false := by
    by_contra hp
    rw [Bool.not_eq_false] at hp
    simp only [p1Punt, Bool.and_eq_true, Bool.not_eq_true'] at hp
    have hfp : (p1Head s).fp = true := hp.1.1.1.1.1.1.1.1.2
    have hslow : (p1Head s).fast = false := hp.1.1.1.1.1.1.1.2
    rw [hwait (hI.base _ (p1Head_mem hvalid) hfp)] at hslow
    cases hslow
  have hadopt : p1Adopt s i = false := by
    by_contra hp
    rw [Bool.not_eq_false] at hp
    simp only [p1Adopt, Bool.and_eq_true, Bool.not_eq_true'] at hp
    have hslow : (p1Head s).fast = false := hp.1.1.1.1.1.1.1.1.2
    have hw : (p1Head s).baseWait = false := hp.1.1.1.1.1.1.1.2
    rw [hwait hw] at hslow
    cases hslow
  have hlane : (adoptFire s i && !p2Adopt s i && !redoAdopt s i) = false := by
    rw [adoptFire, hadopt]
    cases p2Adopt s i <;> cases redoAdopt s i <;> simp
  rw [p1Pop, p1Fire, p1Drop, hq, hpunt, hlane, ho, hr]
  simp

/-- The head of P1 after the edge of a standing offer. -/
theorem p1Head_of_stands (hI : OrderInv s) (hrun : i.rstN = true) (ho : offer cfg s i = true)
    (hr : i.reqReady = false) :
    p1Head (step cfg s i) = p1Next cfg s i { p1Head s with hold := false } := by
  have hpop := p1Pop_of_stands hI ho hr
  have hvalid : p1Valid s = true := by
    simp only [offer, Bool.and_eq_true] at ho
    exact ho.1.1.1.1.2
  have hshift : p1Shifted cfg s i = { p1Head s with hold := false } :: s.p1.tail := by
    rw [p1Shifted, hpop, if_neg Bool.false_ne_true, p1_eq hvalid]
    rfl
  rw [p1Head, (step_running hrun).1, hshift]
  rfl

theorem fixed_of_stands (hI : OrderInv s) (hrun : i.rstN = true) (ho : offer cfg s i = true)
    (hr : i.reqReady = false) : (p1Head (step cfg s i)).fixed = (p1Head s).fixed ∧
      ((p1Head s).killed = true → (p1Head (step cfg s i)).killed = true) := by
  rw [p1Head_of_stands hI hrun ho hr, p1Next_fixed, p1Next_killed]
  exact ⟨rfl, fun hk => by rw [hk]; rfl⟩

/-- What an offer of a live load or store has been checked for. -/
theorem offer_spec (hI : OrderInv s) (ho : offer cfg s i = true)
    (hlive : (p1Head s).killed = false) :
    ((p1Head s).store = false → ∀ c ∈ s.sq, c.killed = false → (c.young && p2Passed s) = false) ∧
      ((p1Head s).store = true → s.sq = []) ∧ s.redo = none := by
  have hspec := ho
  simp only [offer, hlive, Bool.false_eq_true, if_false, Bool.and_eq_true, Bool.or_eq_true] at hspec
  rcases hspec.2 with hoff | hfirst
  · refine ⟨fun hst c hc hk => by rw [hI.load hoff hlive hst c hc hk]; rfl,
      hI.store hoff hlive, ?_⟩
    by_contra hno
    rw [(hI.redo hno).2 hoff] at hlive
    cases hlive
  · refine ⟨?_, ?_, ?_⟩
    · intro hst c hc hk
      have hyoung := hfirst.2
      rw [hst, if_neg Bool.false_ne_true, Bool.and_eq_true] at hyoung
      have hno := hyoung.2
      rw [Bool.not_eq_true', sqYoung, List.any_eq_false] at hno
      have hc' := hno c hc
      rw [hk, Bool.not_false, Bool.true_and] at hc'
      simpa using hc'
    · intro hst
      have hempty := hfirst.2
      rw [hst, if_pos rfl] at hempty
      simp only [sqValid, Bool.and_eq_true, Bool.not_eq_true', Bool.not_eq_false',
        List.isEmpty_iff] at hempty
      exact hempty.1.2
    · simpa using hfirst.1.1.1.2

/-- The access dispatched comes behind all others, its beats in order. -/
theorem line_order_step (hI : OrderInv s) (hrun : i.rstN = true) :
    ((line (step cfg s i)).map Entry.key).Pairwise Before := by
  refine List.Pairwise.sublist (line_step (fun _ _ h => key_of_fixed h) hrun) ?_
  rw [List.pairwise_append]
  refine ⟨hI.line, ?_, ?_⟩
  · unfold dispatched
    split_ifs with hfire hsplit
    · have hkey : (incoming cfg s i).split = true := hsplit
      have hbeats : Before (incoming cfg s i).key
          ({ incoming cfg s i with second := true, advance := true } : Entry).key :=
        Or.inr ⟨rfl, hkey, hkey⟩
      simpa using hbeats
    · simp
    · simp
  · intro a ha b hb
    obtain ⟨e, he, rfl⟩ := List.mem_map.1 ha
    obtain ⟨d, hd, rfl⟩ := List.mem_map.1 hb
    left
    show e.serial < d.serial
    rw [(dispatched_spec hd).2.1]
    exact hI.bound e he

theorem bound_step (hI : OrderInv s) (hrun : i.rstN = true) :
    ∀ e ∈ line (step cfg s i), e.serial < (step cfg s i).serials := by
  intro e he
  rw [(step_running hrun).2.2.2.2.2.2.1]
  have hin := (line_step (fun _ _ h => key_of_fixed h) hrun).subset
    (List.mem_map_of_mem (f := Entry.key) he)
  rcases List.mem_append.1 hin with hold | hnew
  · obtain ⟨d, hd, hkey⟩ := List.mem_map.1 hold
    have hser : d.serial = e.serial := congrArg Prod.fst hkey
    have hlt := hI.bound d hd
    omega
  · obtain ⟨d, hd, hkey⟩ := List.mem_map.1 hnew
    have hser : d.serial = e.serial := congrArg Prod.fst hkey
    obtain ⟨-, hserial, -, hfire⟩ := dispatched_spec hd
    rw [hfire, Bool.toNat_true]
    omega

/-- The accesses behind a store that queues are younger. -/
theorem lt_of_queue (hI : OrderInv s) (hq : p1Queue cfg s i = true) :
    ∀ e ∈ s.p1.tail, (p1Head s).serial < e.serial := by
  obtain ⟨hvalid, -, -, hsplit, -⟩ := p1Queue_spec hq
  intro e he
  have hline := hI.line
  rw [Lsu.line, List.map_append, List.pairwise_append] at hline
  have hp1 := hline.2.1
  rw [p1_eq hvalid, List.map_cons, List.pairwise_cons] at hp1
  rcases hp1.1 e.key (List.mem_map_of_mem he) with hlt | ⟨-, hbeat, -⟩
  · exact hlt
  · exact nomatch (hsplit.symm.trans hbeat)

/-- An access of P2 is not younger than one of P1. -/
theorem p2_before_p1 (hI : OrderInv s) {x e : Entry} (hx : x ∈ s.p2) (hw : x.write = false)
    (he : e ∈ s.p1) : Before x.key e.key := by
  have hline := hI.line
  rw [Lsu.line, List.map_append, List.pairwise_append] at hline
  refine hline.2.2 _ (List.mem_map_of_mem (List.mem_filter.2 ⟨hx, ?_⟩)) _
    (List.mem_map_of_mem he)
  rw [hw]
  rfl

theorem sq_order_step (hI : OrderInv s) (hrun : i.rstN = true) :
    ((step cfg s i).sq.map SqEntry.serial).Pairwise (· < ·) := by
  rw [(step_running hrun).2.2.1]
  split_ifs
  · have hmap : SqEntry.serial ∘ sqNext cfg s i = SqEntry.serial := rfl
    rw [List.map_map, hmap, sqShifted, List.map_append, List.pairwise_append]
    have hsub : ((if sqFire cfg s i || sqDrop s then s.sq.tail else s.sq).map
        SqEntry.serial).Sublist (s.sq.map SqEntry.serial) := by
      apply List.Sublist.map
      split_ifs
      · exact List.tail_sublist _
      · exact List.Sublist.refl _
    refine ⟨hI.sorted.sublist hsub, ?_, ?_⟩
    · split_ifs <;> simp
    · intro a ha b hb
      obtain ⟨c, hc, rfl⟩ := List.mem_map.1 (hsub.subset ha)
      split_ifs at hb with hq
      · rw [List.map_singleton, List.mem_singleton] at hb
        subst hb
        exact hI.queued c hc _ (p1Head_mem (p1Queue_spec hq).1)
      · exact absurd hb List.not_mem_nil
  · exact List.Pairwise.nil

theorem queued_step (hI : OrderInv s) (hrun : i.rstN = true) :
    ∀ c ∈ (step cfg s i).sq, ∀ e ∈ (step cfg s i).p1, c.serial < e.serial := by
  intro c' hc' e' he'
  rcases mem_p1_step hrun he' with ⟨e, he, hfixed, -⟩ | ⟨e, he, hfixed, -⟩
  · rw [serial_of_fixed hfixed]
    rcases mem_sq_step hrun hc' with ⟨c, hc, rfl⟩ | ⟨hq, rfl⟩
    · exact hI.queued c hc e (mem_p1_of_left he)
    · rw [if_pos (p1Queue_spec hq).2.2.2.2.2.2.2.2.2.2.2] at he
      exact lt_of_queue hI hq e he
  · rw [serial_of_fixed hfixed, (dispatched_spec he).2.1]
    rcases mem_sq_step hrun hc' with ⟨c, hc, rfl⟩ | ⟨hq, rfl⟩
    · exact hI.sqBound c hc
    · exact hI.bound _ (List.mem_append_right _ (p1Head_mem (p1Queue_spec hq).1))

theorem sqBound_step (hI : OrderInv s) (hrun : i.rstN = true) :
    ∀ c ∈ (step cfg s i).sq, c.serial < (step cfg s i).serials := by
  intro c' hc'
  rw [(step_running hrun).2.2.2.2.2.2.1]
  rcases mem_sq_step hrun hc' with ⟨c, hc, rfl⟩ | ⟨hq, rfl⟩
  · exact (hI.sqBound c hc).trans_le (Nat.le_add_right _ _)
  · exact (hI.bound _ (List.mem_append_right _ (p1Head_mem (p1Queue_spec hq).1))).trans_le
      (Nat.le_add_right _ _)

/-- A store that stays live and unretired was so before. -/
theorem of_sqNext {c : SqEntry} (hk : (sqNext cfg s i c).killed = false)
    (hc : (sqNext cfg s i c).committed = false) : c.killed = false ∧ c.committed = false ∧
      (c.young = true → youngDoom cfg s i = false) ∧ sqDoom cfg s i = false ∧
      killedNow i c.producer = false := by
  simp only [sqNext, Bool.or_eq_false_iff, Bool.and_eq_false_imp, Bool.not_eq_true'] at hk hc
  obtain ⟨⟨hkilled, hrest⟩, -⟩ := hk
  have hall := hrest hc.1
  exact ⟨hkilled, hc.1, hall.2, hall.1.1, hall.1.2⟩

theorem killed_of_sqNext {c : SqEntry} (hk : (sqNext cfg s i c).killed = false) :
    c.killed = false := by
  simp only [sqNext, Bool.or_eq_false_iff] at hk
  exact hk.1.1

/-- **An edge keeps P2 and the store queue in order.** -/
theorem placed_step (hI : OrderInv s) (hrun : i.rstN = true) :
    ∀ x ∈ (step cfg s i).p2, x.write = false → x.killed = false → ∀ c ∈ (step cfg s i).sq,
      c.killed = false → c.committed = false → Placed x c := by
  intro x' hx' hw' hk' c' hc' hck' hcc'
  rcases mem_p2_step hrun hx' with ⟨x, hx, rfl⟩ | ⟨hfire, rfl⟩
  · have hw : x.write = false := hw'
    have hk : x.killed = false := by
      simp only [p2Next, Bool.or_eq_false_iff] at hk'
      exact hk'.1
    have hpassed : x.passed = true → p2Passed s = true := by
      intro hp
      rw [p2Passed, List.any_eq_true]
      exact ⟨x, hx, by rw [hp, hk]; rfl⟩
    rcases mem_sq_step hrun hc' with ⟨c, hc, rfl⟩ | ⟨hq, rfl⟩
    · obtain ⟨hck, hcc, -⟩ := of_sqNext hck' hcc'
      have hplaced := hI.placed x hx hw hk c hc hck hcc
      have hsame : (x.passed && !(c.young && p2Passed s)) = (x.passed && !c.young) := by
        cases hp : x.passed with
        | false => rfl
        | true => rw [hpassed hp, Bool.and_true]
      show if x.passed && !(c.young && p2Passed s) then c.serial < x.serial
        else x.serial < c.serial
      rw [hsame]
      exact hplaced
    · -- a store queued behind the access is younger than it
      obtain ⟨hvalid, -, -, hsplit, -⟩ := p1Queue_spec hq
      have hlt : x.serial < (p1Head s).serial := by
        rcases p2_before_p1 hI hx hw (p1Head_mem hvalid) with hlt | ⟨-, -, hbeat⟩
        · exact hlt
        · exact nomatch (hsplit.symm.trans hbeat)
      have hyoung : (x.passed && !(p2Passed s && p2Passed s)) = false := by
        cases hp : x.passed with
        | false => rfl
        | true => rw [hpassed hp]; rfl
      show if x.passed && !(p2Passed s && p2Passed s) then _ else x.serial < (p1Head s).serial
      rw [hyoung, if_neg Bool.false_ne_true]
      exact hlt
  · have hp1 : p1Fire cfg s i = true := by
      rcases hfire with hp1 | hsq
      · exact hp1
      · rw [show (p2Next cfg s i (pushed cfg s i)).write = (pushed cfg s i).write from rfl,
          (pushed_of_sqFire hsq).1] at hw'
        cases hw'
    obtain ⟨ho, -, hvalid, -⟩ := p1Fire_spec hp1
    obtain ⟨hfixed, hkilled, hpassed⟩ := pushed_of_fire (sqFire_of_p1Fire hp1)
    have hlive : (p1Head s).killed = false := by
      simp only [p2Next, Bool.or_eq_false_iff] at hk'
      rw [← hkilled]
      exact hk'.1
    have hno : p1Queue cfg s i = false := by
      by_contra hq
      rw [Bool.not_eq_false] at hq
      rw [offer_of_p1Queue hq] at ho
      cases ho
    obtain ⟨hload, hstore, -⟩ := offer_spec hI ho hlive
    rcases mem_sq_step hrun hc' with ⟨c, hc, rfl⟩ | ⟨hq, -⟩
    · obtain ⟨hck, hcc, -⟩ := of_sqNext hck' hcc'
      have hlivesq : sqLive s = true := by
        rw [sqLive, List.any_eq_true]
        exact ⟨c, hc, by rw [hck]; rfl⟩
      have hser : c.serial < (pushed cfg s i).serial := by
        rw [serial_of_fixed hfixed]
        exact hI.queued c hc _ (p1Head_mem hvalid)
      have hnoyoung : (c.young && p2Passed s) = false := by
        obtain hst | hst := Bool.eq_false_or_eq_true (p1Head s).store
        · rw [hstore hst] at hc
          exact absurd hc List.not_mem_nil
        · exact hload hst c hc hck
      show if (pushed cfg s i).passed && !(c.young && p2Passed s) then
        c.serial < (pushed cfg s i).serial else _
      rw [hpassed, hlivesq, hnoyoung, Bool.not_false, Bool.and_true, if_pos rfl]
      exact hser
    · rw [hno] at hq
      cases hq

/-- A standing offer after the edge was offered and refused on it. -/
theorem offered_step (hrun : i.rstN = true) (h : (step cfg s i).offered = true) :
    offer cfg s i = true ∧ i.reqReady = false := by
  rw [(step_running hrun).2.2.2.2.2.1, Bool.and_eq_true, Bool.not_eq_true'] at h
  exact h

theorem p1Queue_of_offer (ho : offer cfg s i = true) : p1Queue cfg s i = false := by
  by_contra hq
  rw [Bool.not_eq_false] at hq
  rw [offer_of_p1Queue hq] at ho
  cases ho

theorem load_step (hI : OrderInv s) (hrun : i.rstN = true)
    (hoff : (step cfg s i).offered = true) (hlive : (p1Head (step cfg s i)).killed = false)
    (hst : (p1Head (step cfg s i)).store = false) :
    ∀ c ∈ (step cfg s i).sq, c.killed = false → c.young = false := by
  obtain ⟨ho, hr⟩ := offered_step hrun hoff
  obtain ⟨hfixed, hkilled⟩ := fixed_of_stands hI hrun ho hr
  rw [store_of_fixed hfixed] at hst
  have hold : (p1Head s).killed = false := by
    by_contra hk
    rw [hkilled (by simpa using hk)] at hlive
    cases hlive
  intro c' hc' hk'
  rcases mem_sq_step hrun hc' with ⟨c, hc, rfl⟩ | ⟨hq, -⟩
  · exact (offer_spec hI ho hold).1 hst c hc (killed_of_sqNext hk')
  · rw [p1Queue_of_offer ho] at hq
    cases hq

theorem store_step (hI : OrderInv s) (hrun : i.rstN = true)
    (hoff : (step cfg s i).offered = true) (hlive : (p1Head (step cfg s i)).killed = false)
    (hst : (p1Head (step cfg s i)).store = true) : (step cfg s i).sq = [] := by
  obtain ⟨ho, hr⟩ := offered_step hrun hoff
  obtain ⟨hfixed, hkilled⟩ := fixed_of_stands hI hrun ho hr
  rw [store_of_fixed hfixed] at hst
  have hold : (p1Head s).killed = false := by
    by_contra hk
    rw [hkilled (by simpa using hk)] at hlive
    cases hlive
  have hnil := (offer_spec hI ho hold).2.1 hst
  rw [(step_running hrun).2.2.1, sqShifted, p1Queue_of_offer ho, hnil]
  simp

/-- A fault removes what P2 holds. -/
theorem p2Killed_of_doom (hrun : i.rstN = true) (hdoom : doom cfg s i = true) :
    P2Killed (step cfg s i) := by
  intro x' hx' hw'
  rcases mem_p2_step hrun hx' with ⟨x, hx, rfl⟩ | ⟨-, rfl⟩
  all_goals
    simp only [p2Next] at hw' ⊢
    rw [hw', hdoom]
    simp

theorem doom_of_redoSet (h : redoSet cfg s i = true) : doom cfg s i = true := by
  simp [doom, h]

theorem doom_of_youngDoom (h : youngDoom cfg s i = true) : doom cfg s i = true := by
  simp only [youngDoom, Bool.or_eq_true] at h
  rcases h with h | h <;> simp [doom, h]

theorem doom_of_sqDoom (h : sqDoom cfg s i = true) : doom cfg s i = true := by
  simp only [sqDoom, Bool.or_eq_true, Bool.and_eq_true] at h
  rcases h with h | h <;> simp [doom, h]

/-- While a load waits to be redone nothing else is in flight. -/
theorem redo_step (hI : OrderInv s) (hrun : i.rstN = true) (h : (step cfg s i).redo ≠ none) :
    P2Killed (step cfg s i) ∧
      ((step cfg s i).offered = true → (p1Head (step cfg s i)).killed = true) := by
  cases hset : redoSet cfg s i with
  | true =>
    have hdoom := doom_of_redoSet hset
    refine ⟨p2Killed_of_doom hrun hdoom, ?_⟩
    intro hoff
    obtain ⟨ho, hr⟩ := offered_step hrun hoff
    rw [p1Head_of_stands hI hrun ho hr, p1Next_killed, hdoom]
    simp
  | false =>
    have hold : s.redo ≠ none := by
      intro hnone
      apply h
      rw [(step_running hrun).2.2.2.2.1, redoNext, hset, hnone]
      simp
    obtain ⟨hp2, -⟩ := hI.redo hold
    -- an offer made beside a load to be redone is a removed access's
    have hhead : offer cfg s i = true → (p1Head s).killed = true := by
      intro ho
      by_contra hk
      exact hold (offer_spec hI ho (by simpa using hk)).2.2
    constructor
    · intro x' hx' hw'
      rcases mem_p2_step hrun hx' with ⟨x, hx, rfl⟩ | ⟨hfire, rfl⟩
      · have hk := hp2 x hx hw'
        simp [p2Next, hk]
      · rcases hfire with hp1 | hsq
        · have hk := (pushed_of_fire (sqFire_of_p1Fire hp1)).2.1
          rw [hhead (p1Fire_spec hp1).1] at hk
          simp [p2Next, hk]
        · have hw : (pushed cfg s i).write = false := hw'
          rw [(pushed_of_sqFire hsq).1] at hw
          cases hw
    · intro hoff
      obtain ⟨ho, hr⟩ := offered_step hrun hoff
      exact (fixed_of_stands hI hrun ho hr).2 (hhead ho)

/-- The store in Q stays the youngest of the queue. -/
theorem inQ_step (hI : OrderInv s) (h : Legal cfg s i) :
    ∀ e, (step cfg s i).q = some e → e.killed = false →
      Copy (step cfg s i) e ∨ P2Killed (step cfg s i) := by
  have hrun := h.running
  intro e' hq' hk'
  rw [(step_running hrun).2.2.2.1] at hq'
  split_ifs at hq' with hsq
  have hcommit : ∀ e, Unfinished s e → e.killed = false →
      (i.commit && decide (e.producer = i.commitTag)) = false := by
    intro e he hk
    cases hc : i.commit with
    | false => rfl
    | true => simp [h.finished hc e he hk]
  have hstep := (@step_running cfg s i hrun).2.2.1
  rw [if_pos hsq] at hstep
  have hyoung := (@step_running cfg s i hrun).2.2.2.2.2.2.2
  cases hqueue : p1Queue cfg s i with
  | true =>
    obtain ⟨hvalid, -, -, -, hlive, -, -, -, hnow, -⟩ := p1Queue_spec hqueue
    rw [qNext, if_pos hqueue, Option.some_inj] at hq'
    subst hq'
    cases hdoom : doom cfg s i with
    | true => exact Or.inr (p2Killed_of_doom hrun hdoom)
    | false =>
      left
      have hnosq : sqDoom cfg s i = false := by
        by_contra hd
        rw [doom_of_sqDoom (by simpa using hd)] at hdoom
        cases hdoom
      have hnoyoung : youngDoom cfg s i = false := by
        by_contra hd
        rw [doom_of_youngDoom (by simpa using hd)] at hdoom
        cases hdoom
      have hno := hcommit _ (Or.inl (p1Head_mem hvalid)) hlive
      refine ⟨sqNext cfg s i (added cfg s i), ?_, rfl, rfl, ?_, ?_, ?_⟩
      · rw [hstep, sqShifted, hqueue, if_pos rfl, List.map_append, List.map_singleton,
          List.getLast?_concat]
      · have hprod : (added cfg s i).producer = (p1Head s).producer := rfl
        simp only [sqNext, hnosq, hnoyoung, hprod, hnow]
        simp only [added, Bool.not_false, Bool.true_and, Bool.false_or, Bool.or_false,
          Bool.and_false, hno]
        rfl
      · have hprod : (added cfg s i).producer = (p1Head s).producer := rfl
        simp only [sqNext, hprod, Bool.and_assoc, hno]
        simp [added]
      · intro hy
        rw [hyoung, hqueue, if_pos rfl]
        simp only [sqNext, Bool.and_eq_true] at hy
        exact hy.2
  | false =>
    rw [qNext, hqueue, if_neg Bool.false_ne_true] at hq'
    split_ifs at hq' with hpop
    obtain ⟨e, hq, rfl⟩ := Option.map_eq_some_iff.1 hq'
    simp only [Bool.or_eq_false_iff] at hk'
    obtain ⟨⟨⟨hlive, hnosq⟩, hnow⟩, hnoyoung⟩ := hk'
    -- the store stays because a result of P2 takes R
    have hresult : p2Result cfg s i = true := by
      rw [qPop, hq] at hpop
      simp only [Option.any_some, Bool.or_eq_true, Bool.not_eq_true', not_or] at hpop
      simpa using hpop.2
    rcases hI.inQ e hq hlive with ⟨c, hlast, hser, hprod, hck, hcc, hcy⟩ | hkilled
    · left
      have hcmem : c ∈ s.sq := List.mem_of_getLast? hlast
      have hno := hcommit e (Or.inr (Or.inr (Or.inl hq))) hlive
      -- the store itself neither fires nor drops
      have htail : (if sqFire cfg s i || sqDrop s then s.sq.tail else s.sq).getLast? = some c := by
        split_ifs with hgo
        · cases hs : s.sq with
          | nil => rw [hs] at hlast; cases hlast
          | cons d rest =>
            have hhead : sqHead s = d := by rw [sqHead, hs]; rfl
            cases rest with
            | nil =>
              exfalso
              have hd : d = c := by rw [hs] at hlast; simpa using hlast
              rw [Bool.or_eq_true] at hgo
              rcases hgo with hfire | hdrop
              · simp only [sqFire, sqOffer, Bool.and_eq_true, Bool.or_eq_true, hhead, hd,
                  hcc] at hfire
                have hmem := hfire.1.1.1.1.1.1.1.2
                rcases hmem with hmem | ⟨hmem, htag⟩
                · cases hmem
                · rw [h.memory hmem, ← hprod] at hno
                  simp only [Bool.true_and] at hno
                  rw [hno] at htag
                  cases htag
              · simp only [sqDrop, Bool.and_eq_true, hhead, hd, hck] at hdrop
                exact absurd hdrop.2 Bool.false_ne_true
            | cons d' rest =>
              rw [hs, List.getLast?_cons_cons] at hlast
              exact hlast
        · exact hlast
      refine ⟨sqNext cfg s i c, ?_, hser, hprod, ?_, ?_, ?_⟩
      · rw [hstep, sqShifted, hqueue, if_neg Bool.false_ne_true, List.append_nil,
          List.getLast?_map, htail]
        rfl
      · have hy : (c.young && youngDoom cfg s i) = false := by
          cases hcyoung : c.young with
          | false => rfl
          | true => rw [hcy hcyoung] at hnoyoung; exact hnoyoung
        simp only [sqNext, hck, hcc, hnosq, hprod, hnow, hy, Bool.not_false, Bool.true_and,
          Bool.false_or, Bool.or_false, hno]
        rfl
      · simp only [sqNext, hcc, hprod, Bool.and_assoc, hno]
        simp
      · intro hy
        simp only [sqNext, Bool.and_eq_true] at hy
        rw [hyoung, hqueue, if_neg Bool.false_ne_true]
        exact hcy hy.1
    · have hhead : (p2Head s).killed = true := by
        simp only [p2Result, Bool.and_eq_true, Bool.not_eq_true'] at hresult
        exact hkilled _ (p2Head_mem (p2Retire_spec hresult.1.1.1).1) hresult.1.1.2
      simp only [p2Result, p2Live, hhead] at hresult
      simp at hresult

theorem takeBase_baseWait {e : Entry} (h : e.baseWait = false) :
    (Entry.takeBase cfg i e).baseWait = false := by
  unfold Entry.takeBase
  rw [h]
  split_ifs
  · rfl
  · simp_all
  · exact h

theorem takeData_baseWait (e : Entry) : (Entry.takeData i e).baseWait = e.baseWait := by
  unfold Entry.takeData
  split_ifs
  · rfl
  · rfl
  · split <;> rfl

theorem base_step (hI : OrderInv s) (h : Legal cfg s i) :
    ∀ e ∈ (step cfg s i).p1, e.fp = true → e.baseWait = false := by
  intro e' he' hfp
  rw [(step_running h.running).1] at he'
  obtain ⟨e, hmem, rfl⟩ := List.mem_map.1 he'
  rw [fp_of_fixed (p1Next_fixed e)] at hfp
  have hwait : e.baseWait = false := by
    rcases List.mem_append.1 hmem with hold | hnew
    · obtain ⟨d, hd, hfixed, -, hw⟩ := mem_p1Shifted hold
      rw [hw]
      exact hI.base d (mem_p1_of_left hd) ((fp_of_fixed hfixed).symm.trans hfp)
    · have hin : (incoming cfg s i).fp = true → (incoming cfg s i).baseWait = false := by
        intro hf
        have hno := h.fpBase hf
        simp [incoming, hno]
      unfold dispatched at hnew
      split_ifs at hnew
      · rcases List.mem_cons.1 hnew with rfl | hsecond
        · exact hin hfp
        · rw [List.mem_singleton.1 hsecond] at hfp ⊢
          exact hin hfp
      · rw [List.mem_singleton.1 hnew] at hfp ⊢
        exact hin hfp
      · exact absurd hnew List.not_mem_nil
  apply takeBase_baseWait
  rw [takeData_baseWait]
  exact hwait

theorem plain_step (hI : OrderInv s) (hrun : i.rstN = true) :
    ∀ e ∈ (step cfg s i).p1, e.write = false := by
  intro e' he'
  rcases mem_p1_step hrun he' with ⟨e, he, hfixed, -⟩ | ⟨e, he, hfixed, -⟩
  · rw [write_of_fixed hfixed]
    exact hI.plain e (mem_p1_of_left he)
  · rw [write_of_fixed hfixed]
    unfold dispatched at he
    split_ifs at he
    · rcases List.mem_cons.1 he with rfl | hsecond
      · rfl
      · rw [List.mem_singleton.1 hsecond]
        rfl
    · rw [List.mem_singleton.1 he]
      rfl
    · exact absurd he List.not_mem_nil

theorem writes_step (hI : OrderInv s) (hrun : i.rstN = true) :
    ∀ x ∈ (step cfg s i).p2, x.write = true →
      x.fp = false ∧ x.passed = false ∧ x.killed = false := by
  intro x' hx' hw'
  rcases mem_p2_step hrun hx' with ⟨x, hx, rfl⟩ | ⟨hfire, rfl⟩
  · have hw : x.write = true := hw'
    obtain ⟨hfp, hpassed, hkilled⟩ := hI.writes x hx hw
    exact ⟨hfp, hpassed, by simp [p2Next, hkilled, hw]⟩
  · rcases hfire with hp1 | hsq
    · have hfixed := (pushed_of_fire (sqFire_of_p1Fire hp1)).1
      have hw : (pushed cfg s i).write = true := hw'
      rw [write_of_fixed hfixed, hI.plain _ (p1Head_mem (p1Fire_spec hp1).2.2.1)] at hw
      cases hw
    · rw [p2Next, pushed, hsq]
      exact ⟨rfl, rfl, rfl⟩

/-- **The order survives every edge.** -/
theorem orderInv_step (hI : OrderInv s) (h : Legal cfg s i) : OrderInv (step cfg s i) where
  line := line_order_step hI h.running
  bound := bound_step hI h.running
  sorted := sq_order_step hI h.running
  queued := queued_step hI h.running
  sqBound := sqBound_step hI h.running
  placed := placed_step hI h.running
  load := load_step hI h.running
  store := store_step hI h.running
  inQ := inQ_step hI h
  redo := redo_step hI h.running
  base := base_step hI h
  plain := plain_step hI h.running
  writes := writes_step hI h.running

theorem orderInv_run {r : Clocked.Run (machine cfg)} {n : ℕ} (h : r.Obeys (Legal cfg) n) :
    OrderInv (r.state n) := by
  refine Clocked.Run.invariant (I := OrderInv) (fun s hs => ?_) (fun _ _ hI hi => ?_) h
  · rw [show s = resetState from hs]
    exact orderInv_reset
  · exact orderInv_step hI hi

end Step

/-! ## The registers hold the lists -/

/-- The lists fit the registers. -/
structure Sizes (cfg : Config) (s : State) : Prop where
  p1 : s.p1.length ≤ 2
  p2 : s.p2.length ≤ 2
  sq : s.sq.length ≤ cfg.sqDepth
  /-- A standing offer has its place in P2. -/
  offered : s.offered = true → s.p2.length ≤ 1

section Sizes

theorem p2_length_of_offer (hS : Sizes cfg s) (h : offer cfg s i = true) : s.p2.length ≤ 1 := by
  have hp2 := hS.p2
  simp only [offer, Bool.and_eq_true] at h
  by_cases hkilled : (p1Head s).killed = true
  · rw [if_pos hkilled, Bool.and_eq_true] at h
    exact hS.offered h.2.1
  · rw [if_neg hkilled, Bool.or_eq_true] at h
    rcases h.2 with hoff | hfirst
    · exact hS.offered hoff
    · simp only [Bool.and_eq_true, decide_eq_true_eq] at hfirst
      have hne := hfirst.1.1.2
      omega

theorem p2_length_of_sqOffer (hS : Sizes cfg s) (h : sqOffer cfg s i = true) :
    s.p2.length ≤ 1 := by
  have hp2 := hS.p2
  simp only [sqOffer, Bool.and_eq_true, decide_eq_true_eq] at h
  have hne := h.1.1.2
  omega

theorem dispatched_length : (s.p1.length ≤ 2) →
    (s.p1 ++ dispatched cfg s i).length ≤ 2 := by
  intro hp1
  rw [List.length_append, dispatched]
  split_ifs with hfire hsplit
  · rw [dispatchFire, dispatchReady, if_pos hsplit, Bool.and_eq_true, List.isEmpty_iff] at hfire
    rw [hfire.2]
    simp
  · rw [dispatchFire, dispatchReady, if_neg hsplit, Bool.and_eq_true, decide_eq_true_eq] at hfire
    have hne := hfire.2
    rw [List.length_singleton]
    omega
  · simpa using hp1

/-- **The lists fit the registers**, so appending is writing behind the count. -/
theorem sizes_step (hS : Sizes cfg s) (hrun : i.rstN = true) : Sizes cfg (step cfg s i) := by
  have hp2tail : (if p2Retire cfg s i || (adoptFire s i && p2Adopt s i) then s.p2.tail
      else s.p2).length ≤ s.p2.length := by
    split_ifs
    · simp
    · exact le_rfl
  have hp2len : (step cfg s i).p2.length ≤ s.p2.length +
      (p1Fire cfg s i || sqFire cfg s i).toNat := by
    rw [(step_running hrun).2.1, List.length_map, p2Shifted, List.length_append]
    cases hf : p1Fire cfg s i || sqFire cfg s i <;> simp_all
  have hsqlen : (if sqFire cfg s i || sqDrop s then s.sq.tail else s.sq).length ≤
      s.sq.length := by
    split_ifs
    · simp
    · exact le_rfl
  constructor
  · rw [(step_running hrun).1, List.length_map, List.length_append]
    have hdisp := @dispatched_length cfg s i hS.p1
    rw [List.length_append] at hdisp
    have hshift : (p1Shifted cfg s i).length ≤ s.p1.length := by
      have hmap := congrArg List.length (@p1Shifted_map cfg s i _ Entry.key
        (fun e => key_of_fixed (advanced_fixed e)) fun e => rfl)
      rw [List.length_map, List.length_map] at hmap
      rw [hmap]
      split_ifs
      · simp
      · exact le_rfl
    omega
  · have hp2 := hS.p2
    cases hf : p1Fire cfg s i || sqFire cfg s i with
    | false =>
      rw [hf, Bool.toNat_false] at hp2len
      omega
    | true =>
      have hone : s.p2.length ≤ 1 := by
        rw [Bool.or_eq_true] at hf
        rcases hf with hp1 | hsq
        · exact p2_length_of_offer hS (p1Fire_spec hp1).1
        · rw [sqFire, Bool.and_eq_true] at hsq
          exact p2_length_of_sqOffer hS hsq.1
      rw [hf, Bool.toNat_true] at hp2len
      omega
  · rw [(step_running hrun).2.2.1]
    split_ifs
    · have hsq := hS.sq
      rw [List.length_map, sqShifted, List.length_append]
      cases hq : p1Queue cfg s i with
      | false =>
        rw [if_neg Bool.false_ne_true, List.length_nil]
        omega
      | true =>
        have hroom := (p1Queue_spec hq).2.2.2.2.2.2.2.2.2.2.1
        rw [if_pos rfl, List.length_singleton]
        omega
    · exact Nat.zero_le _
  · intro hoff
    obtain ⟨ho, hr⟩ := offered_step hrun hoff
    have hone := p2_length_of_offer hS ho
    have hquiet : (p1Fire cfg s i || sqFire cfg s i) = false := by
      rw [p1Fire, sqFire, hr, Bool.and_false, Bool.and_false]
      rfl
    rw [hquiet, Bool.toNat_false] at hp2len
    omega

theorem sizes_run {r : Clocked.Run (machine cfg)} {n : ℕ} (h : r.Obeys (Legal cfg) n) :
    Sizes cfg (r.state n) := by
  refine Clocked.Run.invariant (I := Sizes cfg) (fun s hs => ?_) (fun _ _ hS hi => ?_) h
  · rw [show s = resetState from hs]
    exact ⟨by simp [resetState], by simp [resetState], by simp [resetState],
      by simp [resetState]⟩
  · exact sizes_step hS hi.running

end Sizes

end Lsu
end SloPPC603
