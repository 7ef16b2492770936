import SloPPC603.Lsu.Formation
import SloPPC603.Lsu.Order

/-!
# The address of an access in the unit

The unit adds the offset of an access to the base a wake brings, in P1 or at the head, and
keeps the sum with the access's speed and its alignment exception.

* `Agrees` — an access of P1 against its base and displacement.
* `incoming_agrees`, `agrees_takeBase`, `head_agrees` — at dispatch, in P1 and at the head.
* `AddressInv`, `addressInv_step` — every copy of an address, over a run.
* `addresses_agree` — every signal that reads an address reads one sum.
-/

namespace SloPPC603
namespace Lsu

open Clocked
open Rename (Wake)

/-! ## An access of the unit against its base and displacement -/

/-- The EA of an access is formed. -/
def Entry.formed (e : Entry) : Prop := e.baseWait = false ∨ e.baseLate = true

/-- An access in P1 holds the address, the speed and the exception of its base and
displacement once its base is there, and its displacement until then. -/
structure Agrees (core : Core) (cfg : Config) (x : Access) (e : Entry) : Prop where
  plain : e.write = false
  fp : e.fp = x.fp
  memSize : e.uop.memSize = x.size
  advance : e.advance = true → e.second = true
  second : e.second = true → e.fp = true
  late : e.baseLate = true → e.baseWait = true
  waits : e.baseWait = true → e.offset = x.displacement ∧ x.fp = false ∧ x.le = false
  waiting : e.baseWait = true → e.baseLate = false →
    e.fast = false ∧ e.uop.specialOp ≠ .alignment
  ea : e.formed → e.ea = x.beat (e.second && !e.advance)
  fast : e.formed → e.fast = x.fast core cfg
  traps : e.formed → e.fp = false → (e.uop.specialOp = .alignment ↔ x.traps core cfg = true)

section Dispatch

variable {core : Core} {cfg : Config} {s : State} {k : Slot} {a b : BitVec 32} {i : Input}

/-- Where nothing is missing, the core's EA is the sum. -/
theorem ea_of_dispatch (h : Formed core cfg k a b i) (hwait : (incoming cfg s i).baseWait = false) :
    k.memBaseReady = true ∧ i.ea = (k.access a b).ea := by
  have hready : k.memBaseReady = true := by
    rcases h.admitted with hready | hsnoop
    · exact hready
    · refine memBaseReady_of_ready hsnoop ?_
      rw [← h.base]
      have hany := baseAny_of_snoop hsnoop
      simpa [incoming, hany, h.baseSnoop, hsnoop] using hwait
  exact ⟨hready, (h.ea hready).trans (dispatchEa_eq h hready)⟩

/-- Where nothing is missing and the unit is not asked, the core finds the exception. -/
theorem specialOp_of_core (h : Formed core cfg k a b i) (hfp : k.fp = false)
    (hsnoop : k.baseSnoop core cfg = false) :
    i.uop.specialOp =
      if (k.access a b).traps core cfg then .alignment else k.uop.specialOp := by
  have hready : k.memBaseReady = true := h.admitted.resolve_right (by simp [hsnoop])
  have hmis : k.misaligned core cfg = (k.access a b).traps core cfg :=
    misaligned_eq rfl (dispatchEa_eq h hready).symm rfl rfl
  have halign : k.align core cfg = (k.access a b).traps core cfg := by
    rw [Slot.align, hfp, hsnoop, hmis]
    cases hdq1 : k.dq1 with
    | false => simp
    | true =>
      have hno := (h.second hdq1).2.resolve_left (by simp [hsnoop])
      rw [← hmis, hno]
      rfl
  rw [h.specialOp hfp, halign]

/-- Where the unit is asked, the core leaves the operation as it is. -/
theorem specialOp_of_snoop (h : Formed core cfg k a b i) (hsnoop : k.baseSnoop core cfg = true) :
    (i.uop.specialOp = .load ∨ i.uop.specialOp = .store) ∧
      (k.access a b).traps core cfg = intTrap cfg k.uop.memSize (k.access a b).ea k.dr := by
  obtain ⟨hfp, hle⟩ := plain_of_snoop h hsnoop
  have halign : k.align core cfg = false := by simp [Slot.align, hsnoop]
  refine ⟨?_, ?_⟩
  · rw [h.specialOp hfp, halign]
    exact h.plain hfp
  · have hxle : (k.access a b).le = false := hle
    simp only [Access.traps, hxle, Bool.false_and, Bool.false_or]
    rfl

/-- **The access being dispatched agrees with its base and displacement.** -/
theorem incoming_agrees (h : Formed core cfg k a b i) :
    Agrees core cfg (k.access a b) (incoming cfg s i) := by
  have hwaits : (incoming cfg s i).baseWait = true →
      k.baseSnoop core cfg = true ∧ (k.lsuBase core cfg).ready = false := by
    intro hwait
    simp only [incoming, h.baseSnoop, h.base, Bool.and_eq_true, Bool.not_eq_true'] at hwait
    exact ⟨hwait.1.2, hwait.2⟩
  have hformed : (incoming cfg s i).formed → (incoming cfg s i).baseWait = false :=
    fun hf => hf.resolve_right Bool.false_ne_true
  have hthere : (cfg.baseAny && i.baseSnoop && !i.base.ready) = false →
      k.baseSnoop core cfg = true → i.base.ready = true := by
    intro hb hsnoop
    simpa [baseAny_of_snoop hsnoop, h.baseSnoop, hsnoop] using hb
  have hsize : (k.access a b).size = k.uop.memSize := rfl
  refine ⟨rfl, h.fp, ?_, by rintro ⟨⟩, by rintro ⟨⟩, by rintro ⟨⟩, ?_, ?_, ?_, ?_, ?_⟩
  · unfold incoming
    dsimp only
    split_ifs
    · exact h.memSize
    · exact h.memSize
  · intro hwait
    obtain ⟨hsnoop, hno⟩ := hwaits hwait
    exact ⟨h.offset.trans (offset_eq h hsnoop hno), plain_of_snoop h hsnoop⟩
  · intro hwait _
    obtain ⟨hsnoop, hno⟩ := hwaits hwait
    obtain ⟨hop, -⟩ := specialOp_of_snoop h hsnoop
    have hb : (cfg.baseAny && i.baseSnoop && !i.base.ready) = true := hwait
    constructor
    · simp [incoming, hb]
    · rcases hop with hop | hop <;> simp [incoming, hb, hop]
  · intro hf
    exact (ea_of_dispatch h (hformed hf)).2
  · intro hf
    have hb : (cfg.baseAny && i.baseSnoop && !i.base.ready) = false := hformed hf
    obtain ⟨hready, hea⟩ := ea_of_dispatch h (hformed hf)
    cases hsnoop : k.baseSnoop core cfg with
    | true =>
      obtain ⟨hop, htraps⟩ := specialOp_of_snoop h hsnoop
      obtain ⟨hfp, -⟩ := plain_of_snoop h hsnoop
      have hxfp : (k.access a b).fp = false := hfp
      have hopd : (decide (i.uop.specialOp = .load) || decide (i.uop.specialOp = .store)) = true := by
        simpa using hop
      simp only [incoming, hthere hb hsnoop, h.fp, hfp, hopd, baseAny_of_snoop hsnoop,
        h.baseSnoop, hsnoop, h.memSize, hea, h.dr, Access.fast, hxfp, htraps, hsize]
      simp
    | false =>
      cases hfp : k.fp with
      | true =>
        have hxfp : (k.access a b).fp = true := hfp
        simp only [incoming, h.fp, hfp, h.baseSnoop, hsnoop, hea, Access.fast, hxfp]
        simp [Slot.access, h.le, h.fpDouble]
      | false =>
        have hxfp : (k.access a b).fp = false := hfp
        have hop := specialOp_of_core h hfp hsnoop
        simp only [incoming, h.fp, hfp, h.baseSnoop, hsnoop, hea, Access.fast, hxfp, hop,
          h.memSize, hsize]
        cases (k.access a b).traps core cfg with
        | true => simp
        | false => rcases h.plain hfp with hk | hk <;> simp [hk]
  · intro hf hfp
    have hb : (cfg.baseAny && i.baseSnoop && !i.base.ready) = false := hformed hf
    obtain ⟨hready, hea⟩ := ea_of_dispatch h (hformed hf)
    have hkfp : k.fp = false := h.fp.symm.trans hfp
    cases hsnoop : k.baseSnoop core cfg with
    | true =>
      obtain ⟨hop, htraps⟩ := specialOp_of_snoop h hsnoop
      have hne : i.uop.specialOp ≠ .alignment := by rcases hop with hop | hop <;> simp [hop]
      simp only [incoming, hthere hb hsnoop, baseAny_of_snoop hsnoop, h.baseSnoop, hsnoop,
        h.memSize, hea, h.dr, htraps]
      cases intTrap cfg k.uop.memSize (k.access a b).ea k.dr <;> simp [hne]
    | false =>
      have hop := specialOp_of_core h hkfp hsnoop
      have huop : (incoming cfg s i).uop = i.uop := by simp [incoming, h.baseSnoop, hsnoop]
      rw [huop, hop]
      cases (k.access a b).traps core cfg with
      | true => simp
      | false => rcases h.plain hkfp with hk | hk <;> simp [hk]

/-- So do both entries of a doubleword in two beats. -/
theorem dispatched_agrees {e : Entry} (h : Formed core cfg k a b i) (he : e ∈ dispatched cfg s i) :
    Agrees core cfg (k.access a b) e := by
  have hin := incoming_agrees (s := s) h
  unfold dispatched at he
  split_ifs at he with hfire hsplit
  · rcases List.mem_cons.1 he with rfl | hsecond
    · exact hin
    · rw [List.mem_singleton.1 hsecond]
      have hfp : i.fp = true := by
        simp only [inSplit, Bool.and_eq_true] at hsplit
        exact hsplit.1.1
      refine ⟨hin.plain, hin.fp, hin.memSize, fun _ => rfl, fun _ => hfp, hin.late, hin.waits,
        hin.waiting, hin.ea, hin.fast, hin.traps⟩
  · rw [List.mem_singleton.1 he]
    exact hin
  · exact absurd he List.not_mem_nil

end Dispatch

/-! ## The address over an edge -/

/-- What the core promises of a cycle about the accesses `acc`, by their place in dispatch
order. -/
structure Serves (core : Core) (cfg : Config) (acc : ℕ → Access) (s : State) (i : Input) :
    Prop where
  running : i.rstN = true
  /-- The early value of a wake in time is its value. -/
  early : i.wake.valid = true → i.wake.late = false → i.wakeEarlyValue = i.wake.value
  early1 : i.wake1.valid = true → i.wake1.late = false → i.wake1EarlyValue = i.wake1.value
  dispatch : dispatchFire cfg s i = true →
    ∃ k a b, Formed core cfg k a b i ∧ acc s.serials = k.access a b
  /-- A wake of a base brings its value. -/
  base : ∀ e ∈ s.p1 ++ dispatched cfg s i, e.baseWait = true →
    ∀ w, w = i.wake ∨ w = i.wake1 → w.valid = true → w.tag = e.baseTag →
      w.producer = e.baseProducer → w.value = (acc e.serial).base
  /-- MSR[DR] does not change under an access that waits. -/
  dr : ∀ e ∈ s.p1, e.baseWait = true → i.dr = (acc e.serial).dr

section Edge

variable {core : Core} {cfg : Config} {s : State} {i : Input} {x : Access} {e : Entry}

theorem agrees_takeData (h : Agrees core cfg x e) : Agrees core cfg x (Entry.takeData i e) := by
  have hsame : ∀ (data : BitVec 32) (dataReady dataLate : Bool), Agrees core cfg x
      { e with data := data, dataReady := dataReady, dataLate := dataLate } := fun _ _ _ =>
    ⟨h.plain, h.fp, h.memSize, h.advance, h.second, h.late, h.waits, h.waiting, h.ea, h.fast, h.traps⟩
  unfold Entry.takeData
  split_ifs
  · exact hsame _ _ _
  · exact h
  · split
    · exact hsame _ _ _
    · exact h

/-- A wake that writes a base is one of the two that name it. -/
theorem wakeOf_spec {tag : BitVec 3} {producer : CompletionTag} {w : Wake}
    (h : wakeOf i tag producer = some w) :
    (w = i.wake ∨ w = i.wake1) ∧ w.valid = true ∧ w.tag = tag ∧ w.producer = producer := by
  unfold wakeOf at h
  split_ifs at h with h0 h1
  · rw [Option.some.injEq] at h
    subst h
    simp only [Bool.and_eq_true, decide_eq_true_eq] at h0
    exact ⟨Or.inl rfl, h0.1.1, h0.1.2, h0.2⟩
  · rw [Option.some.injEq] at h
    subst h
    simp only [Bool.and_eq_true, decide_eq_true_eq] at h1
    exact ⟨Or.inr rfl, h1.1.1, h1.1.2, h1.2⟩

/-- The exception and the speed of an access that waits, from the sum. -/
theorem fast_of_waits (h : Agrees core cfg x e) (hwait : e.baseWait = true) :
    x.traps core cfg = intTrap cfg e.uop.memSize x.ea x.dr ∧
      x.fast core cfg = (intFast e.uop.memSize x.ea && !intTrap cfg e.uop.memSize x.ea x.dr) ∧
      e.second = false := by
  obtain ⟨-, hfp, hle⟩ := h.waits hwait
  have htraps : x.traps core cfg = intTrap cfg e.uop.memSize x.ea x.dr := by
    rw [Access.traps, hle, h.memSize]
    rfl
  refine ⟨htraps, ?_, ?_⟩
  · rw [Access.fast, hfp, htraps, h.memSize]
    rfl
  · by_contra hsecond
    have hno := h.second (by simpa using hsecond)
    rw [h.fp, hfp] at hno
    cases hno

/-- **A base taken in P1 forms the sum.** -/
theorem agrees_takeBase (h : Agrees core cfg x e)
    (hbase : e.baseWait = true → ∀ w, w = i.wake ∨ w = i.wake1 → w.valid = true →
      w.tag = e.baseTag → w.producer = e.baseProducer → w.value = x.base)
    (hdr : e.baseWait = true → i.dr = x.dr) : Agrees core cfg x (Entry.takeBase cfg i e) := by
  unfold Entry.takeBase
  split_ifs with hlate hwait
  · have hformed : e.formed := Or.inr hlate
    exact ⟨h.plain, h.fp, h.memSize, h.advance, h.second, nofun,
      nofun, nofun,
      fun _ => h.ea hformed, fun _ => h.fast hformed, fun _ => h.traps hformed⟩
  · rw [Bool.and_eq_true] at hwait
    split
    · rename_i w hw
      obtain ⟨hport, hvalid, htag, hprod⟩ := wakeOf_spec hw
      obtain ⟨hoff, hfp, hle⟩ := h.waits hwait.2
      obtain ⟨htraps, hfast, hsecond⟩ := fast_of_waits h hwait.2
      have hsum : w.value + e.offset = x.ea := by
        rw [hbase hwait.2 w hport hvalid htag hprod, hoff]
        rfl
      have hop : e.uop.specialOp ≠ .alignment :=
        (h.waiting hwait.2 (by simpa using hlate)).2
      rw [hsum, hdr hwait.2]
      refine ⟨h.plain, h.fp, ?_, h.advance, h.second, fun hl => hl, fun _ => ⟨hoff, hfp, hle⟩, ?_, ?_, ?_, ?_⟩
      · dsimp only
        split_ifs
        · exact h.memSize
        · exact h.memSize
      · intro hw0 hl0
        exact nomatch (hw0.symm.trans hl0)
      · intro _
        simp [Access.beat, hsecond]
      · intro _
        exact hfast.symm
      · intro _ _
        rw [htraps]
        dsimp only
        split_ifs with ht
        · simp [ht]
        · simp [ht, hop]
    · exact h
  · exact h

/-- **A base snooped at the head forms the sum.** -/
theorem head_agrees {acc : ℕ → Access} (hserves : Serves core cfg acc s i)
    (hvalid : p1Valid s = true) (h : Agrees core cfg (acc (p1Head s).serial) (p1Head s))
    (hready : headBaseReady cfg s i = true) :
    headEa cfg s i = (acc (p1Head s).serial).beat ((p1Head s).second && !(p1Head s).advance) ∧
      headFast cfg s i = (acc (p1Head s).serial).fast core cfg := by
  cases hwait : (p1Head s).baseWait with
  | false =>
    have hformed : (p1Head s).formed := Or.inl hwait
    have hsame : headEa cfg s i = (p1Head s).ea ∧ headFast cfg s i = (p1Head s).fast := by
      simp [headEa, headFast, hwait]
    rw [hsame.1, hsame.2]
    exact ⟨h.ea hformed, h.fast hformed⟩
  | true =>
    obtain ⟨hoff, -, -⟩ := h.waits hwait
    obtain ⟨-, hfast, hsecond⟩ := fast_of_waits h hwait
    have hbase := hserves.base (p1Head s) (List.mem_append_left _ (p1Head_mem hvalid)) hwait
    -- the port in time that writes the base
    have hea : headEa cfg s i = (acc (p1Head s).serial).ea ∧ cfg.baseSnoop = true := by
      simp only [headBaseReady, hwait, Bool.not_true, Bool.false_or, Bool.or_eq_true] at hready
      have hmatch : ∀ w, headBase cfg s w = true → cfg.baseSnoop = true ∧ w.valid = true ∧
          w.late = false ∧ w.tag = (p1Head s).baseTag ∧
          w.producer = (p1Head s).baseProducer := by
        intro w hw
        simp only [headBase, Bool.and_eq_true, Bool.not_eq_true', decide_eq_true_eq] at hw
        exact ⟨hw.1.1.1.1, hw.1.1.1.2, hw.1.1.2, hw.1.2, hw.2⟩
      cases hb : headBase cfg s i.wake with
      | true =>
        obtain ⟨hcfg, hv, hl, ht, hp⟩ := hmatch _ hb
        refine ⟨?_, hcfg⟩
        simp only [headEa, hcfg, hwait, hb, Bool.and_true, if_true]
        rw [hserves.early hv hl, hbase _ (Or.inl rfl) hv ht hp, hoff]
        rfl
      | false =>
        have hb1 : headBase cfg s i.wake1 = true := by simpa [hb] using hready
        obtain ⟨hcfg, hv, hl, ht, hp⟩ := hmatch _ hb1
        refine ⟨?_, hcfg⟩
        simp only [headEa, hcfg, hwait, hb, hb1, Bool.and_true, Bool.and_false,
          Bool.false_eq_true, if_false, if_true]
        rw [hserves.early1 hv hl, hbase _ (Or.inr rfl) hv ht hp, hoff]
        rfl
    refine ⟨by rw [hea.1, hsecond]; rfl, ?_⟩
    rw [headFast, hea.1, hea.2, hwait, hfast,
      hserves.dr _ (p1Head_mem hvalid) hwait]
    rfl

/-- A wake of this access's base brings its value, under its own MSR[DR]. -/
def Served (acc : ℕ → Access) (i : Input) (e : Entry) : Prop :=
  e.baseWait = true → i.dr = (acc e.serial).dr ∧
    ∀ w, w = i.wake ∨ w = i.wake1 → w.valid = true → w.tag = e.baseTag →
      w.producer = e.baseProducer → w.value = (acc e.serial).base

theorem agrees_p1Next {acc : ℕ → Access} (h : Agrees core cfg (acc e.serial) e)
    (hserved : Served acc i e) : Agrees core cfg (acc e.serial) (p1Next cfg s i e) := by
  have hkept : ∀ d : Entry, (Entry.takeData i d).baseWait = d.baseWait ∧
      (Entry.takeData i d).baseTag = d.baseTag ∧
      (Entry.takeData i d).baseProducer = d.baseProducer := by
    intro d
    unfold Entry.takeData
    split_ifs
    · exact ⟨rfl, rfl, rfl⟩
    · exact ⟨rfl, rfl, rfl⟩
    · split <;> exact ⟨rfl, rfl, rfl⟩
  rw [p1Next]
  refine agrees_takeBase (agrees_takeData ?_) ?_ ?_
  · exact ⟨h.plain, h.fp, h.memSize, h.advance, h.second, h.late, h.waits, h.waiting, h.ea, h.fast,
      h.traps⟩
  · intro hwait w hport hvalid htag hprod
    rw [(hkept _).1] at hwait
    rw [(hkept _).2.1] at htag
    rw [(hkept _).2.2] at hprod
    exact (hserved hwait).2 w hport hvalid htag hprod
  · intro hwait
    rw [(hkept _).1] at hwait
    exact (hserved hwait).1

/-- The second beat reaching the head moves to the next word. -/
theorem agrees_advanced (h : Agrees core cfg x e) : Agrees core cfg x e.advanced := by
  unfold Entry.advanced
  split_ifs with hadv
  · have hsecond := h.second (h.advance hadv)
    have hwait : e.baseWait = false := by
      by_contra hno
      have hfp := (h.waits (by simpa using hno)).2.1
      rw [← h.fp, hsecond] at hfp
      cases hfp
    have hformed : e.formed := Or.inl hwait
    refine ⟨h.plain, h.fp, h.memSize, nofun, h.second, h.late, h.waits,
      h.waiting, fun _ => ?_, fun _ => h.fast hformed, fun _ => h.traps hformed⟩
    rw [h.ea hformed, hadv, h.advance hadv]
    rfl
  · exact h

/-- What P1 holds after the shift. -/
theorem p1Shifted_cases (he : e ∈ p1Shifted cfg s i) :
    ∃ d ∈ s.p1, e = d ∨ e = d.advanced ∨ e = { d with hold := false } := by
  unfold p1Shifted at he
  split_ifs at he
  · split at he
    · exact absurd he List.not_mem_nil
    · rename_i d rest htail
      have hmem : ∀ y ∈ d :: rest, y ∈ s.p1 := fun y hy => List.mem_of_mem_tail (htail ▸ hy)
      rcases List.mem_cons.1 he with rfl | hrest
      · exact ⟨d, hmem d List.mem_cons_self, Or.inr (Or.inl rfl)⟩
      · exact ⟨e, hmem e (List.mem_cons_of_mem _ hrest), Or.inl rfl⟩
  · split at he
    · exact absurd he List.not_mem_nil
    · rename_i d rest hlist
      rcases List.mem_cons.1 he with rfl | hrest
      · exact ⟨d, by rw [hlist]; exact List.mem_cons_self, Or.inr (Or.inr rfl)⟩
      · exact ⟨e, by rw [hlist]; exact List.mem_cons_of_mem _ hrest, Or.inl rfl⟩

end Edge

/-! ## The address over a run -/

/-- A finished address: that of the access's beat, with nothing left to wait for. -/
structure Settled (core : Core) (cfg : Config) (x : Access) (e : Entry) : Prop where
  agrees : Agrees core cfg x e
  formed : e.formed
  advance : e.advance = false

/-- Every copy of an address is the sum of its access's base and displacement. -/
structure AddressInv (core : Core) (cfg : Config) (acc : ℕ → Access) (s : State) : Prop where
  p1 : ∀ e ∈ s.p1, Agrees core cfg (acc e.serial) e
  head : ∀ e, s.p1.head? = some e → e.advance = false
  /-- P2 holds accesses and the writes of retired stores. -/
  p2 : ∀ e ∈ s.p2, (e.write = true ∧ e.passed = false) ∨ Settled core cfg (acc e.serial) e
  q : ∀ e, s.q = some e → Settled core cfg (acc e.serial) e
  redo : ∀ e, s.redo = some e → e.ea = (acc e.serial).beat e.second
  r : ∀ x, s.r = some x → x.updateValue = (acc x.serial).ea

section Run

variable {core : Core} {cfg : Config} {acc : ℕ → Access} {s : State} {i : Input}

theorem Settled.ea {x : Access} {e : Entry} (h : Settled core cfg x e) :
    e.ea = x.beat e.second := by
  rw [h.agrees.ea h.formed, h.advance, Bool.not_false, Bool.and_true]

/-- An integer access has one beat. -/
theorem Settled.ea_of_int {x : Access} {e : Entry} (h : Settled core cfg x e)
    (hfp : e.fp = false) : e.ea = x.ea := by
  have hsecond : e.second = false := by
    by_contra hno
    rw [h.agrees.second (by simpa using hno)] at hfp
    cases hfp
  rw [h.ea, hsecond]
  rfl

theorem p1_agrees_step (h : AddressInv core cfg acc s) (hserves : Serves core cfg acc s i) :
    ∀ e ∈ (step cfg s i).p1, Agrees core cfg (acc e.serial) e := by
  intro e' he'
  rw [(step_running hserves.running).1] at he'
  obtain ⟨e, hmem, rfl⟩ := List.mem_map.1 he'
  rw [serial_of_fixed (p1Next_fixed e)]
  rcases List.mem_append.1 hmem with hold | hnew
  · obtain ⟨d, hd, hshift⟩ := p1Shifted_cases hold
    have hagrees := h.p1 d hd
    have hserved : Served acc i d := fun hwait =>
      ⟨hserves.dr d hd hwait, hserves.base d (List.mem_append_left _ hd) hwait⟩
    rcases hshift with rfl | rfl | rfl
    · exact agrees_p1Next hagrees hserved
    · have hsame : d.advanced.serial = d.serial ∧ d.advanced.baseWait = d.baseWait ∧
          d.advanced.baseTag = d.baseTag ∧ d.advanced.baseProducer = d.baseProducer := by
        unfold Entry.advanced
        split_ifs <;> exact ⟨rfl, rfl, rfl, rfl⟩
      refine agrees_p1Next ?_ ?_
      · rw [hsame.1]
        exact agrees_advanced hagrees
      · unfold Served
        rw [hsame.1, hsame.2.1, hsame.2.2.1, hsame.2.2.2]
        exact hserved
    · refine agrees_p1Next ?_ hserved
      exact ⟨hagrees.plain, hagrees.fp, hagrees.memSize, hagrees.advance, hagrees.second,
        hagrees.late, hagrees.waits, hagrees.waiting, hagrees.ea, hagrees.fast, hagrees.traps⟩
  · obtain ⟨-, hserial, -, hfire⟩ := dispatched_spec hnew
    obtain ⟨k, a, b, hformed, hacc⟩ := hserves.dispatch hfire
    have hserved : Served acc i e := by
      intro hwait
      refine ⟨?_, hserves.base e (List.mem_append_right _ hnew) hwait⟩
      rw [hserial, hacc, hformed.dr]
      rfl
    refine agrees_p1Next ?_ hserved
    rw [hserial, hacc]
    exact dispatched_agrees hformed hnew

theorem p1Next_advance (e : Entry) : (p1Next cfg s i e).advance = e.advance := by
  have hdata : ∀ d : Entry, (Entry.takeData i d).advance = d.advance := by
    intro d
    unfold Entry.takeData
    split_ifs
    · rfl
    · rfl
    · split <;> rfl
  have hbase : ∀ d : Entry, (Entry.takeBase cfg i d).advance = d.advance := by
    intro d
    unfold Entry.takeBase
    split_ifs
    · rfl
    · split <;> rfl
    · rfl
  rw [p1Next, hbase, hdata]

/-- The head of P1 has moved to its own word. -/
theorem head_step (h : AddressInv core cfg acc s) (hserves : Serves core cfg acc s i) :
    ∀ e, (step cfg s i).p1.head? = some e → e.advance = false := by
  intro e' he'
  rw [(step_running hserves.running).1, List.head?_map, Option.map_eq_some_iff] at he'
  obtain ⟨e, he, rfl⟩ := he'
  rw [p1Next_advance]
  have hdispatched : (dispatched cfg s i).head? = some e → e.advance = false := by
    intro hd
    unfold dispatched at hd
    split_ifs at hd
    · rw [List.head?_cons, Option.some.injEq] at hd
      rw [← hd]
      rfl
    · rw [List.head?_cons, Option.some.injEq] at hd
      rw [← hd]
      rfl
    · cases hd
  unfold p1Shifted at he
  split_ifs at he
  · split at he
    · exact hdispatched he
    · rename_i d rest htail
      rw [List.cons_append, List.head?_cons, Option.some.injEq] at he
      rw [← he]
      unfold Entry.advanced
      split_ifs with hadv
      · rfl
      · exact Bool.eq_false_iff.2 hadv
  · split at he
    · exact hdispatched he
    · rename_i d rest hlist
      rw [List.cons_append, List.head?_cons, Option.some.injEq] at he
      rw [← he]
      exact h.head d (by rw [hlist]; rfl)

/-- The head of P1, its address formed or not. -/
theorem head_spec (h : AddressInv core cfg acc s) (hvalid : p1Valid s = true) :
    Agrees core cfg (acc (p1Head s).serial) (p1Head s) ∧ (p1Head s).advance = false := by
  refine ⟨h.p1 _ (p1Head_mem hvalid), h.head _ ?_⟩
  rw [p1_eq hvalid]
  rfl

/-- A head the unit makes itself has its address. -/
theorem head_settled (h : AddressInv core cfg acc s) (hvalid : p1Valid s = true)
    (hfast : (p1Head s).fast = true ∨ (p1Head s).baseWait = false) :
    Settled core cfg (acc (p1Head s).serial) (p1Head s) := by
  obtain ⟨hagrees, hadv⟩ := head_spec h hvalid
  refine ⟨hagrees, ?_, hadv⟩
  by_contra hno
  unfold Entry.formed at hno
  push Not at hno
  obtain ⟨hwait, hlate⟩ := hno
  rcases hfast with hfast | hthere
  · rw [(hagrees.waiting (by simpa using hwait) (by simpa using hlate)).1] at hfast
    cases hfast
  · exact hwait hthere

theorem offer_parts (h : offer cfg s i = true) : p1Valid s = true ∧
    headFast cfg s i = true ∧ headBaseReady cfg s i = true ∧ sqOffer cfg s i = false := by
  simp only [offer, Bool.and_eq_true, Bool.not_eq_true'] at h
  exact ⟨h.1.1.1.1.2, h.1.1.1.2, h.1.1.2, h.1.2⟩

/-- An offered head is settled as the port takes it. -/
theorem pushed_settled (h : AddressInv core cfg acc s) (hserves : Serves core cfg acc s i)
    (hfire : p1Fire cfg s i = true) :
    Settled core cfg (acc (pushed cfg s i).serial) (pushed cfg s i) := by
  have hsq := sqFire_of_p1Fire hfire
  obtain ⟨hvalid, hfast, hready, -⟩ := offer_parts (p1Fire_spec hfire).1
  obtain ⟨hagrees, hadv⟩ := head_spec h hvalid
  obtain ⟨hea, hspeed⟩ := head_agrees hserves hvalid hagrees hready
  have hserial : (pushed cfg s i).serial = (p1Head s).serial := by
    rw [pushed, if_neg (by simp [hsq])]
  have htraps : (p1Head s).fp = false → ((p1Head s).uop.specialOp = .alignment ↔
      (acc (p1Head s).serial).traps core cfg = true) := by
    intro hfp
    by_cases hformed : (p1Head s).formed
    · exact hagrees.traps hformed hfp
    · unfold Entry.formed at hformed
      push Not at hformed
      have hwait : (p1Head s).baseWait = true := by simpa using hformed.1
      have hop := (hagrees.waiting hwait (by simpa using hformed.2)).2
      obtain ⟨htraps, hsum, -⟩ := fast_of_waits hagrees hwait
      rw [hspeed, hsum, ← htraps, Bool.and_eq_true, Bool.not_eq_true'] at hfast
      simp [hop, hfast.2]
  rw [hserial, pushed, if_neg (by simp [hsq])]
  refine ⟨⟨hagrees.plain, hagrees.fp, hagrees.memSize, hagrees.advance, hagrees.second,
    by rintro ⟨⟩, by rintro ⟨⟩, by rintro ⟨⟩, fun _ => hea, fun _ => hspeed, fun _ => htraps⟩,
    Or.inl rfl, hadv⟩

theorem p2_settled_step (h : AddressInv core cfg acc s) (hserves : Serves core cfg acc s i) :
    ∀ e ∈ (step cfg s i).p2, (e.write = true ∧ e.passed = false) ∨
      Settled core cfg (acc e.serial) e := by
  intro e' he'
  have hkept : ∀ e : Entry, ((e.write = true ∧ e.passed = false) ∨
      Settled core cfg (acc e.serial) e) →
      ((p2Next cfg s i e).write = true ∧ (p2Next cfg s i e).passed = false) ∨
        Settled core cfg (acc (p2Next cfg s i e).serial) (p2Next cfg s i e) := by
    rintro e (hw | hs)
    · exact Or.inl hw
    · have ha := hs.agrees
      exact Or.inr ⟨⟨ha.plain, ha.fp, ha.memSize, ha.advance, ha.second, ha.late, ha.waits,
        ha.waiting, ha.ea, ha.fast, ha.traps⟩, hs.formed, hs.advance⟩
  rcases mem_p2_step hserves.running he' with ⟨e, hmem, rfl⟩ | ⟨hfire, rfl⟩
  · exact hkept e (h.p2 e hmem)
  · refine hkept _ ?_
    rcases hfire with hp1 | hsq
    · exact Or.inr (pushed_settled h hserves hp1)
    · left
      rw [pushed, if_pos hsq]
      exact ⟨rfl, rfl⟩

/-- An access answered from P2 is settled unless it is a retired store's write. -/
theorem p2Head_settled (h : AddressInv core cfg acc s) (hvalid : p2Valid s = true)
    (hplain : (p2Head s).write = false ∨ (p2Head s).passed = true) :
    Settled core cfg (acc (p2Head s).serial) (p2Head s) := by
  refine (h.p2 _ (p2Head_mem hvalid)).resolve_left ?_
  rintro ⟨hw, hp⟩
  rcases hplain with hno | hno
  · rw [hw] at hno
    cases hno
  · rw [hp] at hno
    cases hno

theorem q_settled_step (h : AddressInv core cfg acc s) (hserves : Serves core cfg acc s i) :
    ∀ e, (step cfg s i).q = some e → Settled core cfg (acc e.serial) e := by
  intro e he
  rw [(step_running hserves.running).2.2.2.1] at he
  split_ifs at he
  unfold qNext at he
  split_ifs at he with hqueue
  · obtain ⟨hvalid, -, hfast, -⟩ := p1Queue_spec hqueue
    rw [Option.some.injEq] at he
    subst he
    exact head_settled h hvalid (Or.inl hfast)
  · obtain ⟨d, hd, rfl⟩ := Option.map_eq_some_iff.1 he
    have hs := h.q d hd
    have ha := hs.agrees
    exact ⟨⟨ha.plain, ha.fp, ha.memSize, ha.advance, ha.second, ha.late, ha.waits, ha.waiting,
      ha.ea, ha.fast, ha.traps⟩, hs.formed, hs.advance⟩

theorem redo_step_address (h : AddressInv core cfg acc s) (hserves : Serves core cfg acc s i) :
    ∀ e, (step cfg s i).redo = some e → e.ea = (acc e.serial).beat e.second := by
  intro e he
  rw [(step_running hserves.running).2.2.2.2.1] at he
  split_ifs at he
  unfold redoNext at he
  split_ifs at he with hset
  · simp only [redoSet, Bool.and_eq_true] at hset
    rw [Option.some.injEq] at he
    rw [← he]
    exact (p2Head_settled h (p2Retire_spec hset.1.1.1.1).1 (Or.inr hset.1.1.2)).ea
  · obtain ⟨d, hd, rfl⟩ := Option.map_eq_some_iff.1 he
    exact h.redo d (Option.mem_filter_iff.1 hd).1

/-- What an integer access writes back of its address. -/
theorem r_step_address (h : AddressInv core cfg acc s) (hserves : Serves core cfg acc s i) :
    ∀ x, (step cfg s i).r = some x → x.updateValue = (acc x.serial).ea := by
  intro x hx
  have hr : (step cfg s i).r = rNext cfg s i := by
    rw [step, hserves.running]
    rfl
  rw [hr] at hx
  unfold rNext at hx
  split_ifs at hx with hresult
  · simp only [p2Result, Bool.and_eq_true, Bool.not_eq_true'] at hresult
    rw [Option.some.injEq] at hx
    rw [← hx]
    exact (p2Head_settled h (p2Retire_spec hresult.1.1.1.1).1
      (Or.inl hresult.1.1.1.2)).ea_of_int hresult.2
  · obtain ⟨d, hd, rfl⟩ := Option.map_eq_some_iff.1 hx
    obtain ⟨hq, hfp⟩ := Option.mem_filter_iff.1 hd
    exact (h.q d hq).ea_of_int (by simpa using hfp)

theorem addressInv_step (h : AddressInv core cfg acc s) (hserves : Serves core cfg acc s i) :
    AddressInv core cfg acc (step cfg s i) where
  p1 := p1_agrees_step h hserves
  head := head_step h hserves
  p2 := p2_settled_step h hserves
  q := q_settled_step h hserves
  redo := redo_step_address h hserves
  r := r_step_address h hserves

theorem addressInv_run {r : Clocked.Run (machine cfg)} {n : ℕ}
    (h : r.Obeys (Serves core cfg acc) n) : AddressInv core cfg acc (r.state n) := by
  refine Run.invariant (A := Serves core cfg acc) (I := AddressInv core cfg acc) ?_ ?_ h
  · rintro s rfl
    exact ⟨by simp [resetState], by simp [resetState], by simp [resetState],
      by simp [resetState], by simp [resetState], by simp [resetState]⟩
  · exact fun s i hI hs => addressInv_step hI hs

end Run

/-! ## Every copy of an address is one sum -/

/-- The access at the head of P1, and the word of its beat. -/
def headAccess (acc : ℕ → Access) (s : State) : Access := acc (p1Head s).serial

/-- The address the head's access is to have. -/
def headWord (acc : ℕ → Access) (s : State) : BitVec 32 :=
  (headAccess acc s).beat (p1Head s).second

/-- A live queued store in the doubleword of an address. -/
def overlaps (s : State) (ea : BitVec 32) : Bool :=
  s.sq.any fun e => !e.killed && dword e.addr = dword ea

/-- Each signal that reads an address, a speed or an exception reads those of the access's
base and displacement. -/
structure OneSum (core : Core) (cfg : Config) (acc : ℕ → Access) (s : State) (i : Input) :
    Prop where
  /-- The request of the head, its address and its speed. -/
  offered : offer cfg s i = true → headEa cfg s i = headWord acc s ∧
    (request cfg s i).addr = accessAddr (headWord acc s) (p1Head s).munge ∧
      headFast cfg s i = (headAccess acc s).fast core cfg
  /-- The store queue searched for the head as it is offered, and for a load that may pass. -/
  searched : offer cfg s i = true → sqOverlap cfg s i = overlaps s (headWord acc s)
  passing : loadFirst cfg s = true → sqOverlapReg s = overlaps s (headWord acc s) ∧
    (headAccess acc s).fast core cfg = true
  /-- The store that queues, its check and what the queue keeps of it. -/
  queued : p1Queue cfg s i = true → chkAddr s = accessAddr (headWord acc s) (p1Head s).munge ∧
    p1Addr cfg s i = chkAddr s ∧ (added cfg s i).addr = chkAddr s ∧
      (headAccess acc s).fast core cfg = true
  /-- What leaves for the lane, with an alignment exception or without. -/
  adopted : p1Adopt s i = true → (p1Head s).ea = headWord acc s ∧
    (headAccess acc s).fast core cfg = false ∧
      ((p1Head s).uop.specialOp = .alignment ↔ (headAccess acc s).traps core cfg = true)
  punted : p1Punt s i = true → (headAccess acc s).fast core cfg = false
  /-- Every access the port has taken. -/
  taken : ∀ e ∈ s.p2, e.write = false → e.ea = (acc e.serial).beat e.second ∧
    e.fast = (acc e.serial).fast core cfg
  /-- The address an update form writes back. -/
  update : ∀ y, s.r = some y → y.updateValue = (acc y.serial).ea

section OneSum

variable {core : Core} {cfg : Config} {acc : ℕ → Access} {s : State} {i : Input}

/-- Munging leaves the doubleword. -/
theorem dword_accessAddr (ea : BitVec 32) (munge : BitVec 3) :
    dword (accessAddr ea munge) = dword ea := by
  apply BitVec.eq_of_getLsbD_eq
  intro j hj
  rw [dword, dword, BitVec.getLsbD_extractLsb', BitVec.getLsbD_extractLsb', accessAddr,
    BitVec.getLsbD_append, BitVec.getLsbD_append, if_neg (by omega), if_neg (by omega),
    BitVec.getLsbD_extractLsb']
  have hidx : 3 + (3 + j - 2 - 1) = 3 + j := by omega
  have hlt : 3 + j - 2 - 1 < 29 := by omega
  rw [hidx]
  simp [hlt]

/-- A head that is offered has its address. -/
theorem offered_spec (h : AddressInv core cfg acc s) (hserves : Serves core cfg acc s i)
    (ho : offer cfg s i = true) : headEa cfg s i = headWord acc s ∧
      headFast cfg s i = (headAccess acc s).fast core cfg := by
  obtain ⟨hvalid, -, hready, -⟩ := offer_parts ho
  obtain ⟨hagrees, hadv⟩ := head_spec h hvalid
  obtain ⟨hea, hfast⟩ := head_agrees hserves hvalid hagrees hready
  rw [hadv, Bool.not_false, Bool.and_true] at hea
  exact ⟨hea, hfast⟩

/-- A head with its address keeps it under a wake of the same base. -/
theorem headEa_of_settled (hserves : Serves core cfg acc s i) (hvalid : p1Valid s = true)
    (h : Settled core cfg (headAccess acc s) (p1Head s)) : headEa cfg s i = headWord acc s := by
  by_cases hready : headBaseReady cfg s i = true
  · have hea := (head_agrees hserves hvalid h.agrees hready).1
    rw [h.advance, Bool.not_false, Bool.and_true] at hea
    exact hea
  · simp only [headBaseReady, Bool.or_eq_true, not_or, Bool.not_eq_true] at hready
    have hsame : headEa cfg s i = (p1Head s).ea := by simp [headEa, hready.1.2, hready.2]
    rw [hsame]
    exact h.ea

theorem oneSum_of_inv (h : AddressInv core cfg acc s) (hserves : Serves core cfg acc s i) :
    OneSum core cfg acc s i where
  offered ho := by
    obtain ⟨hea, hfast⟩ := offered_spec h hserves ho
    obtain ⟨-, -, -, hsq⟩ := offer_parts ho
    refine ⟨hea, ?_, hfast⟩
    show (if sqOffer cfg s i then _ else p1Addr cfg s i) = _
    rw [hsq, p1Addr, hea]
    rfl
  searched ho := by
    rw [sqOverlap, overlaps, p1Addr, (offered_spec h hserves ho).1, dword_accessAddr]
  passing hload := by
    simp only [loadFirst, Bool.and_eq_true, Bool.not_eq_true'] at hload
    obtain ⟨⟨⟨⟨⟨⟨⟨⟨⟨⟨⟨hvalid, -⟩, -⟩, -⟩, -⟩, -⟩, hfast⟩, -⟩, -⟩, -⟩, -⟩, -⟩ := hload
    have hs := head_settled h hvalid (Or.inl hfast)
    refine ⟨?_, (hs.agrees.fast hs.formed).symm.trans hfast⟩
    rw [sqOverlapReg, overlaps, hs.ea]
    rfl
  queued hqueue := by
    obtain ⟨hvalid, -, hfast, -⟩ := p1Queue_spec hqueue
    have hs := head_settled h hvalid (Or.inl hfast)
    have hchk : chkAddr s = accessAddr (headWord acc s) (p1Head s).munge := by
      rw [chkAddr, hs.ea]
      rfl
    refine ⟨hchk, ?_, rfl, (hs.agrees.fast hs.formed).symm.trans hfast⟩
    rw [hchk, p1Addr, headEa_of_settled hserves hvalid hs]
  adopted hadopt := by
    obtain ⟨hvalid, hslow, hwait, hfp⟩ : p1Valid s = true ∧ (p1Head s).fast = false ∧
        (p1Head s).baseWait = false ∧ (p1Head s).fp = false := by
      simp only [p1Adopt, Bool.and_eq_true, Bool.not_eq_true'] at hadopt
      tauto
    have hs := head_settled h hvalid (Or.inr hwait)
    exact ⟨hs.ea, (hs.agrees.fast hs.formed).symm.trans hslow, hs.agrees.traps hs.formed hfp⟩
  punted hpunt := by
    obtain ⟨hvalid, hfp, hslow⟩ : p1Valid s = true ∧ (p1Head s).fp = true ∧
        (p1Head s).fast = false := by
      simp only [p1Punt, Bool.and_eq_true, Bool.not_eq_true'] at hpunt
      tauto
    have hagrees := (head_spec h hvalid).1
    -- an FP access never waits
    have hwait : (p1Head s).baseWait = false := by
      by_contra hno
      have hxfp := (hagrees.waits (by simpa using hno)).2.1
      rw [← hagrees.fp, hfp] at hxfp
      cases hxfp
    exact (hagrees.fast (Or.inl hwait)).symm.trans hslow
  taken e he hw := by
    have hs := (h.p2 e he).resolve_left (fun hno => by simp [hno.1] at hw)
    exact ⟨hs.ea, hs.agrees.fast hs.formed⟩
  update := h.r

/-- **Every way of forming an address agrees.** -/
theorem addresses_agree (core : Core) (cfg : Config) (acc : ℕ → Access)
    (r : Clocked.Run (machine cfg)) (n : ℕ) (h : r.Obeys (Serves core cfg acc) (n + 1)) :
    OneSum core cfg acc (r.state n) (r.input n) :=
  oneSum_of_inv (addressInv_run (h.mono (Nat.le_succ n))) (h n (Nat.lt_succ_self n))

/-- A unit that snoops bases. -/
def snoopConfig : Config := { queueConfig with baseSnoop := true, baseWait := true }

/-- `lwz` at 8 past a base that is not there. -/
def waitingSlot : Slot where
  dq1 := false
  uop := .loadWord
  zeroA := false
  useImm := true
  imm := 8
  srcA := ⟨false, 0, 3, default⟩
  srcB := ⟨true, 0, 0, default⟩
  plain := true
  depPrev := false
  prevWrites := false
  fp := false
  fpDouble := false
  le := false
  dr := false

/-- A run that dispatches it and then writes its base. -/
def snoopRun : Clocked.Run (machine snoopConfig) where
  start := resetState
  initial := rfl
  input k :=
    if k = 0 then
      { dispatchValid := true, uop := .loadWord, baseSnoop := true
        base := ⟨false, 0, 3, default⟩, offset := 8 }
    else { wake := { valid := true, tag := 3, value := 0x1000 }, wakeEarlyValue := 0x1000 }

theorem addresses_agree_snoopRun :
    offer snoopConfig (snoopRun.state 1) (snoopRun.input 1) = true ∧
      headEa snoopConfig (snoopRun.state 1) (snoopRun.input 1) = 0x1008 := by
  have hformed : Formed ⟨true, false⟩ snoopConfig waitingSlot 0x1000 0 (snoopRun.input 0) :=
    ⟨by decide, fun _ => rfl, Or.inr (by decide), fun _ => Or.inl rfl, by decide, by decide,
      by decide, by decide, rfl, rfl, rfl, fun _ => by decide, rfl, rfl, rfl, rfl⟩
  have hserves : snoopRun.Obeys
      (Serves ⟨true, false⟩ snoopConfig fun _ => waitingSlot.access 0x1000 0) 2 := by
    intro k hk
    obtain rfl | rfl : k = 0 ∨ k = 1 := by omega
    · refine ⟨rfl, by decide, by decide, fun _ => ⟨_, _, _, hformed, rfl⟩, ?_, fun _ _ _ => rfl⟩
      rintro e - - w (rfl | rfl) hvalid
      · exact absurd hvalid (by decide)
      · exact absurd hvalid (by decide)
    · refine ⟨rfl, fun _ _ => rfl, by decide, fun hfire => absurd hfire (by decide), ?_,
        fun _ _ _ => rfl⟩
      rintro e - - w (rfl | rfl) hvalid - -
      · rfl
      · exact absurd hvalid (by decide)
  have hsum := addresses_agree ⟨true, false⟩ snoopConfig _ snoopRun 1 hserves
  have hoffer : offer snoopConfig (snoopRun.state 1) (snoopRun.input 1) = true := by decide
  exact ⟨hoffer, (hsum.offered hoffer).1.trans (by decide)⟩

end OneSum

end Lsu
end SloPPC603
