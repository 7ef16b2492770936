import SloPPC603.Completion.Entries
import SloPPC603.Completion.Lanes

/-!
# Retiring in the writeback cycle

An entry whose result arrives may be offered for retirement in the same cycle,
with the result merged into its packet on the way out.  An offer that is not
taken is made again from the stored packet.  This file proves that the two
offers are one: what `retire_o` and `retire1_o` show in the arrival cycle is what
the finish ports store, and what the queue goes on offering from its registers.

* `PortRules` — the restrictions the module asserts of its finish ports.
* `stored_port0`, `stored_port1`, `stored_port2` — what a clean finish stores.
* `retire_stored`, `retire1_stored` — the offer is what is stored.
* `entryAt_step` — a surviving entry on the next edge.
* `pairOk_stored` — a clean finish changes no field that pairing reads.
* `writeback_changes_nothing` — all of it, on any edge of any run.
-/

namespace SloPPC603
namespace Completion

section Ports

variable (cfg : Config) (s : State) (i : Input)

/-- The restrictions the module asserts of its second and third finish ports. -/
structure PortRules : Prop where
  /-- The second port takes no fault. -/
  clean1 : i.result1Valid = true → i.result1.fault = false ∧ i.result1.dataFault = .ok
  /-- Nor a producer the first port has. -/
  apart1 : i.result1Valid = true → i.resultValid = true → i.result.producer ≠ i.result1.producer
  /-- The second port finishes no entry with a result it does not record. -/
  records1 : finish1Accept cfg s i = true →
    (s.packets i.result1.producer.index).writeCrFields = false ∧
      (s.packets i.result1.producer.index).writeCrBit = false ∧
      (s.packets i.result1.producer.index).writeXer = false ∧
      (s.packets i.result1.producer.index).updateWrite = false
  /-- The third port finishes no entry with a register or flag result. -/
  records2 : finish2Accept cfg s i = true →
    (s.packets i.result2.producer.index).gprWrite = false ∧
      (s.packets i.result2.producer.index).updateWrite = false ∧
      (s.packets i.result2.producer.index).writeCrField = false ∧
      (s.packets i.result2.producer.index).writeCrFields = false ∧
      (s.packets i.result2.producer.index).writeCrBit = false ∧
      (s.packets i.result2.producer.index).writeXer = false ∧
      (s.packets i.result2.producer.index).writeCa = false ∧
      (s.packets i.result2.producer.index).writeOvSo = false
  /-- Nor a producer another port has. -/
  apart2 : finish2Accept cfg s i = true →
    (i.resultValid = true → i.result.producer ≠ i.result2.producer) ∧
      (i.result1Valid = true → i.result1.producer ≠ i.result2.producer)

/-- The head finishes cleanly on some port this cycle. -/
def headNow : Bool := headNow0 cfg s i || headNow1 cfg s i || headNow2 cfg s i

/-- CQ[1] finishes cleanly on some port this cycle. -/
def head1Now : Bool := head1Now0 cfg s i || head1Now1 cfg s i || head1Now2 cfg s i

/-- No fault is finished into the slot this cycle. -/
def CleanAt (slot : ℕ) : Prop :=
  (finishAccept cfg s i = true → i.result.producer.index = slot → resultFault cfg i = false) ∧
    (finish2Accept cfg s i = true → i.result2.producer.index = slot →
      result2Fault cfg i = false)

end Ports

/-! ## What a clean finish stores -/

section Stored

variable {cfg : Config} {s : State} {i : Input}

/-- Merging a finished packet into the entry it was made of gives that packet. -/
theorem mergeFinish_finished (p : RetirePacket) (r : ResultPacket) :
    mergeFinish p (finished p r) = finished p r := rfl

theorem mergeFinish_finished1 (p : RetirePacket) (r : ResultPacket) :
    mergeFinish p (finished1 p r) = finished1 p r := rfl

/-- Two accepted results for one slot have one producer. -/
theorem producer_eq_of_accept {v w : Bool} {q r : ResultPacket}
    (hq : finishOwner cfg s i v q = true) (hr : finishOwner cfg s i w r = true)
    (hidx : q.producer.index = r.producer.index) : q.producer = r.producer := by
  have hgq := (finishOwner_spec hq).2.2.2.2.1
  have hgr := (finishOwner_spec hr).2.2.2.2.1
  rw [hidx, hgr] at hgq
  have hq' : q.producer = ⟨q.producer.index, q.producer.generation⟩ := rfl
  rw [hq', hidx, ← hgq]

/-- The third port's finish excludes the other two from its slot. -/
theorem port2_apart (hports : PortRules cfg s i) (h2 : finish2Accept cfg s i = true) :
    ¬ (finishAccept cfg s i = true ∧ i.result.producer.index = i.result2.producer.index) ∧
      ¬ (finish1Accept cfg s i = true ∧
        i.result1.producer.index = i.result2.producer.index) := by
  constructor
  · rintro ⟨h0, hidx⟩
    exact (hports.apart2 h2).1 (finishOwner_spec h0).1 (producer_eq_of_accept h0 h2 hidx)
  · rintro ⟨h1, hidx⟩
    exact (hports.apart2 h2).2 (finishOwner_spec h1).1 (producer_eq_of_accept h1 h2 hidx)

/-- So does the second port's the first. -/
theorem port1_apart (hports : PortRules cfg s i) (h1 : finish1Accept cfg s i = true) :
    ¬ (finishAccept cfg s i = true ∧
      i.result.producer.index = i.result1.producer.index) := by
  rintro ⟨h0, hidx⟩
  exact hports.apart1 (finishOwner_spec h1).1 (finishOwner_spec h0).1
    (producer_eq_of_accept h0 h1 hidx)

theorem stored_port0 (hports : PortRules cfg s i) (h : finishAccept cfg s i = true)
    (hclean : resultFault cfg i = false) : nextPackets cfg s i i.result.producer.index =
      finished (s.packets i.result.producer.index) i.result := by
  have hno2 : ¬ (finish2Accept cfg s i = true ∧
      i.result2.producer.index = i.result.producer.index) :=
    fun h2 => (port2_apart hports h2.1).1 ⟨h, h2.2.symm⟩
  have hno1 : ¬ (finish1Accept cfg s i = true ∧
      i.result1.producer.index = i.result.producer.index) :=
    fun h1 => port1_apart hports h1.1 ⟨h, h1.2.symm⟩
  rw [nextPackets, if_neg hno2, if_neg hno1, if_pos ⟨h, rfl⟩, finishInto, hclean]
  exact mergeFinish_finished _ _

theorem stored_port1 (hports : PortRules cfg s i) (h : finish1Accept cfg s i = true) :
    nextPackets cfg s i i.result1.producer.index =
      finished1 (s.packets i.result1.producer.index) i.result1 := by
  have hno2 : ¬ (finish2Accept cfg s i = true ∧
      i.result2.producer.index = i.result1.producer.index) :=
    fun h2 => (port2_apart hports h2.1).2 ⟨h, h2.2.symm⟩
  rw [nextPackets, if_neg hno2, if_pos ⟨h, rfl⟩]
  exact mergeFinish_finished1 _ _

theorem stored_port2 (h : finish2Accept cfg s i = true) (hclean : result2Fault cfg i = false) :
    nextPackets cfg s i i.result2.producer.index =
      finished (s.packets i.result2.producer.index) default := by
  rw [nextPackets, if_pos ⟨h, rfl⟩, finishInto, hclean]
  exact mergeFinish_finished _ _

/-! ## The offer is what is stored -/

/-- What a fixed lane shows of its slot: the packet with a result that arrives
merged in, the first port's first. -/
def laneOffer (s : State) (i : Input) (slot : ℕ) (now0 now1 now2 : Bool) : RetirePacket :=
  if now0 then finished (s.packets slot) i.result
  else if now1 then finished1 (s.packets slot) i.result1
  else if now2 then finished (s.packets slot) default
  else s.packets slot

theorem retire_eq (h : retireValid cfg s i = true) : retire cfg s i =
    laneOffer s i s.head (headNow0 cfg s i) (headNow1 cfg s i) (headNow2 cfg s i) := by
  rw [retire, if_pos h]
  rfl

theorem retire1_eq (h : retire1Valid cfg s i = true) : retire1 cfg s i =
    laneOffer s i s.head1 (head1Now0 cfg s i) (head1Now1 cfg s i) (head1Now2 cfg s i) := by
  rw [retire1, if_pos h]
  rfl

/-- The accepted finish by which a lane finishes its slot this cycle, the first
port's first. -/
theorem LaneAgrees.port {slot : ℕ} {kill now0 now1 now2 : Bool}
    (hlane : LaneAgrees cfg s i slot kill now0 now1 now2)
    (hnow : (now0 || now1 || now2) = true) :
    (now0 = true ∧ finishAccept cfg s i = true ∧ resultFault cfg i = false ∧
      i.result.producer.index = slot) ∨
    (now0 = false ∧ now1 = true ∧ finish1Accept cfg s i = true ∧
      i.result1.producer.index = slot) ∨
    (now0 = false ∧ now1 = false ∧ now2 = true ∧ finish2Accept cfg s i = true ∧
      result2Fault cfg i = false ∧ i.result2.producer.index = slot) := by
  have h0 := hlane.now0_eq.symm
  have h1 := hlane.now1_eq.symm
  have h2 := hlane.now2_eq.symm
  cases now0 with
  | true =>
    simp only [Bool.and_eq_true, Bool.not_eq_true', decide_eq_true_eq] at h0
    exact Or.inl ⟨rfl, h0.1.1.1, h0.1.2, h0.2⟩
  | false =>
    cases now1 with
    | true =>
      simp only [Bool.and_eq_true, decide_eq_true_eq] at h1
      exact Or.inr (Or.inl ⟨rfl, rfl, h1.1.1, h1.2⟩)
    | false =>
      cases now2 with
      | true =>
        simp only [Bool.and_eq_true, Bool.not_eq_true', decide_eq_true_eq] at h2
        exact Or.inr (Or.inr ⟨rfl, rfl, rfl, h2.1.1, h2.1.2, h2.2⟩)
      | false => cases hnow

/-- A lane that finishes its slot this cycle shows what the ports store there. -/
theorem laneOffer_stored (hports : PortRules cfg s i) {slot : ℕ} {kill now0 now1 now2 : Bool}
    (hlane : LaneAgrees cfg s i slot kill now0 now1 now2)
    (hnow : (now0 || now1 || now2) = true) :
    laneOffer s i slot now0 now1 now2 = nextPackets cfg s i slot := by
  rcases hlane.port hnow with ⟨rfl, hacc, hclean, rfl⟩ | ⟨rfl, rfl, hacc, rfl⟩ |
    ⟨rfl, rfl, rfl, hacc, hclean, rfl⟩
  · rw [stored_port0 hports hacc hclean]
    rfl
  · rw [stored_port1 hports hacc]
    rfl
  · rw [stored_port2 hacc hclean]
    rfl

/-- A finish of the head arrives for a pending head. -/
theorem pendingHead_of_headNow (h : headNow cfg s i = true) : pendingHead s = true := by
  simp only [headNow, headNow0, headNow1, headNow2, headResultMatch, Bool.or_eq_true,
    Bool.and_eq_true] at h
  tauto

/-- A finish of CQ[1] arrives for a pending CQ[1]. -/
theorem pendingHead1_of_head1Now (h : head1Now cfg s i = true) : pendingHead1 s = true := by
  simp only [head1Now, head1Now0, head1Now1, head1Now2, head1ResultMatch, Bool.or_eq_true,
    Bool.and_eq_true] at h
  tauto

/-- A head that finishes now is offered now. -/
theorem retireValid_of_headNow (hrst : i.rstN = true) (h : headNow cfg s i = true) :
    retireValid cfg s i = true := by
  have hpend := pendingHead_of_headNow h
  simp only [pendingHead, Bool.and_eq_true] at hpend
  unfold headNow at h
  unfold retireValid
  rw [hrst, hpend.1.1, hpend.1.2, h]
  simp

theorem retire_stored (hs : HeadInv s) (hports : PortRules cfg s i)
    (hvalid : retireValid cfg s i = true) (h : headNow cfg s i = true) :
    retire cfg s i = nextPackets cfg s i s.head := by
  rw [retire_eq hvalid]
  exact laneOffer_stored hports (headLane_agrees hs (pendingHead_of_headNow h)) h

theorem retire1_stored (hs : HeadInv s) (hports : PortRules cfg s i)
    (hvalid : retire1Valid cfg s i = true) (h : head1Now cfg s i = true) :
    retire1 cfg s i = nextPackets cfg s i s.head1 := by
  rw [retire1_eq hvalid]
  exact laneOffer_stored hports (head1Lane_agrees hs (pendingHead1_of_head1Now h)) h

end Stored

/-! ## Pairing after a finish -/

section Pairing

variable {cfg : Config} {s : State} {i : Input}

/-- Pairing reads controls only. -/
theorem pairOk_controls {p q p' q' : RetirePacket} (hp : p.controls = p'.controls)
    (hq : q.controls = q'.controls) : pairOk p q = pairOk p' q' := by
  have hread : ∀ a b : RetirePacket, pairOk a b = pairOk a.controls b.controls :=
    fun _ _ => rfl
  rw [hread p, hread p', hp, hq]

/-- A slot that a lane finishes this cycle is finished cleanly. -/
theorem cleanAt_of_lane (hports : PortRules cfg s i) {slot : ℕ} {kill now0 now1 now2 : Bool}
    (hlane : LaneAgrees cfg s i slot kill now0 now1 now2)
    (hnow : (now0 || now1 || now2) = true) : CleanAt cfg s i slot := by
  rcases hlane.port hnow with ⟨-, hacc, hclean, rfl⟩ | ⟨-, -, hacc, rfl⟩ |
    ⟨-, -, -, hacc, hclean, rfl⟩
  · exact ⟨fun _ _ => hclean, fun hf2 hidx => absurd ⟨hacc, hidx.symm⟩ (port2_apart hports hf2).1⟩
  · exact ⟨fun hf0 hidx => absurd ⟨hf0, hidx⟩ (port1_apart hports hacc),
      fun hf2 hidx => absurd ⟨hacc, hidx.symm⟩ (port2_apart hports hf2).2⟩
  · exact ⟨fun hf0 hidx => absurd ⟨hf0, hidx⟩ (port2_apart hports hacc).1, fun _ _ => hclean⟩

/-- No finish is accepted for a slot that is done. -/
theorem cleanAt_of_done {slot : ℕ} (hdone : s.done slot = true) : CleanAt cfg s i slot := by
  have hno : ∀ (v : Bool) (r : ResultPacket), finishOwner cfg s i v r = true →
      r.producer.index ≠ slot := by
    rintro v r hacc rfl
    rw [(finishOwner_spec hacc).2.2.2.1] at hdone
    cases hdone
  exact ⟨fun h hidx => absurd hidx (hno _ _ h), fun h hidx => absurd hidx (hno _ _ h)⟩

/-- Without a fault no finish changes the controls of an entry in the queue. -/
theorem nextPackets_controls (hs : RingInv s) (hi : LegalInput cfg s i) {k : ℕ}
    (hk : k < s.count) (hclean : CleanAt cfg s i (slotAt s k)) :
    (nextPackets cfg s i (slotAt s k)).controls = (s.packets (slotAt s k)).controls := by
  have hno : ¬ (alloc1Fire cfg s i = true ∧ slotAt s k = (alloc1Tag s i).index) ∧
      ¬ (allocFire cfg s i = true ∧ slotAt s k = s.tail) := by
    cases hacc : redirectAccepted cfg s i with
    | true => simp [allocFire, allocReady, alloc1Fire, alloc1Ready, hacc]
    | false => exact not_allocated_of_kept hs hi (by simpa [kept, hacc] using hk)
  unfold nextPackets
  split_ifs with h2 h1 h0 hl1 hl0
  · simp [finishInto, hclean.2 h2.1 h2.2]
  · simp
  · simp [finishInto, hclean.1 h0.1 h0.2]
  · exact absurd hl1 hno.1
  · exact absurd hl0 hno.2
  · rfl

/-- **A clean finish of the head or of CQ[1] leaves their pairing as it was.** -/
theorem pairOk_stored (hs : RingInv s) (hi : LegalInput cfg s i) (hcount : 1 < s.count)
    (hhead : CleanAt cfg s i s.head) (hhead1 : CleanAt cfg s i s.head1) :
    pairOk (nextPackets cfg s i s.head) (nextPackets cfg s i s.head1) =
      pairOk (s.packets s.head) (s.packets s.head1) := by
  have hslot0 : slotAt s 0 = s.head := Ring.offset_zero hs.head_lt
  have hslot1 : slotAt s 1 = s.head1 := hs.head1_eq_offset.symm
  have h0 := nextPackets_controls hs hi (k := 0) (by omega) (by rwa [hslot0])
  have h1 := nextPackets_controls hs hi (k := 1) hcount (by rwa [hslot1])
  rw [hslot0] at h0
  rw [hslot1] at h1
  exact pairOk_controls h0 h1

end Pairing

/-! ## The offer on the next edge -/

section Later

variable {cfg : Config} {s : State} {i j : Input}

/-- A surviving entry moves `pops` places towards the head. -/
theorem entryAt_step (hs : RingInv s) (hi : LegalInput cfg s i)
    (hpop : pops cfg s i ≤ kept cfg s i) {k : ℕ} (hk : pops cfg s i ≤ k)
    (hk' : k < kept cfg s i) : k - pops cfg s i < (step cfg s i).count ∧
      entryAt (step cfg s i) (k - pops cfg s i) = settle cfg s i (entryAt s k) := by
  have hle : kept cfg s i ≤ s.count := kept_le
  have hlen : (((entries s).take (kept cfg s i)).drop (pops cfg s i)).length =
      kept cfg s i - pops cfg s i := by
    simp only [List.length_drop, List.length_take, entries_length]
    omega
  have hget : (entries (step cfg s i))[k - pops cfg s i]? =
      some (settle cfg s i (entryAt s k)) := by
    have hplace : pops cfg s i + (k - pops cfg s i) = k := by omega
    rw [entries_step hs hi hpop, List.getElem?_append_left (by rw [List.length_map, hlen]; omega),
      List.getElem?_map, List.getElem?_drop, hplace, List.getElem?_take_of_lt hk',
      List.getElem?_eq_getElem (by rw [entries_length]; omega), getElem_entries]
    rfl
  obtain ⟨hlt, heq⟩ := List.getElem?_eq_some_iff.1 hget
  rw [getElem_entries] at heq
  exact ⟨by simpa using hlt, heq⟩

/-- A settled head is offered as it is stored. -/
theorem retire_of_done (hs : RingInv s) (hrst : i.rstN = true) (hcount : s.count ≠ 0)
    (hdone : s.done s.head = true) :
    retireValid cfg s i = true ∧ retire cfg s i = s.packets s.head := by
  have hvalid : retireValid cfg s i = true := by
    simp [retireValid, retireSettled, hrst, hcount, hs.active_head hcount, hdone]
  have hmatch : ∀ r, headResultMatch s r = false := by simp [headResultMatch, pendingHead, hdone]
  exact ⟨hvalid, by simp [retire, hvalid, headNow0, headNow1, headNow2, hmatch]⟩

/-- So is a settled CQ[1] that pairs with it. -/
theorem retire1_of_done (hs : RingInv s) (hpair : cfg.enablePairRetire = true)
    (hvalid : retireValid cfg s i = true) (hcount : 1 < s.count)
    (hdone1 : s.done s.head1 = true) (hkill : redirectKill cfg s i s.head1 = false)
    (hok : pairOk (s.packets s.head) (s.packets s.head1) = true) :
    retire1Valid cfg s i = true ∧ retire1 cfg s i = s.packets s.head1 := by
  have hvalid1 : retire1Valid cfg s i = true := by
    simp [retire1Valid, hpair, hvalid, hcount, hs.active_head1 hcount, hdone1, hkill, hok]
  have hmatch : ∀ r, head1ResultMatch s r = false := by
    simp [head1ResultMatch, pendingHead1, hdone1]
  exact ⟨hvalid1, by simp [retire1, hvalid1, head1Now0, head1Now1, head1Now2, hmatch]⟩

/-- A lane that finishes its slot this cycle leaves the entry there finished. -/
theorem finishes_of_lane {k : ℕ} {kill now0 now1 now2 : Bool}
    (hlane : LaneAgrees cfg s i (slotAt s k) kill now0 now1 now2)
    (hnow : (now0 || now1 || now2) = true) : finishes cfg s i (entryAt s k) = true := by
  rw [finishes_entryAt]
  rcases hlane.port hnow with ⟨-, hacc, -, hidx⟩ | ⟨-, -, hacc, hidx⟩ | ⟨-, -, -, hacc, -, hidx⟩
  · exact Or.inl ⟨hacc, hidx.symm⟩
  · exact Or.inr (Or.inl ⟨hacc, hidx.symm⟩)
  · exact Or.inr (Or.inr ⟨hacc, hidx.symm⟩)

/-- An entry the recovery does not remove is among those kept. -/
theorem lt_kept_of_not_killed (hs : RingInv s) {k : ℕ} (hk : k < s.count)
    (hkill : redirectKill cfg s i (slotAt s k) = false) : k < kept cfg s i := by
  by_contra hge
  have hcount := hs.count_le
  have hkilled : redirectKill cfg s i (Ring.offset cqDepth s.head k) = true :=
    (redirectKill_offset hs (by omega)).2 ⟨by omega, hk⟩
  rw [slotAt, hkilled] at hkill
  cases hkill

/-! ### Survivors -/

theorem RingInv.headInv (hs : RingInv s) : HeadInv s := ⟨hs.head_lt, hs.head1_eq⟩

theorem slotAt_zero (hs : RingInv s) : slotAt s 0 = s.head := Ring.offset_zero hs.head_lt

theorem slotAt_one (hs : RingInv s) : slotAt s 1 = s.head1 := hs.head1_eq_offset.symm

theorem step_packets (hi : LegalInput cfg s i) : (step cfg s i).packets = nextPackets cfg s i := by
  rw [step, if_pos hi.running]

/-- A slot that a lane finishes this cycle is not removed this cycle. -/
theorem not_killed_of_lane {slot : ℕ} {kill now0 now1 now2 : Bool}
    (hlane : LaneAgrees cfg s i slot kill now0 now1 now2)
    (hnow : (now0 || now1 || now2) = true) : redirectKill cfg s i slot = false := by
  rcases hlane.port hnow with ⟨-, hacc, -, rfl⟩ | ⟨-, -, hacc, rfl⟩ | ⟨-, -, -, hacc, -, rfl⟩
  · exact (finishOwner_spec hacc).2.2.2.2.2
  · exact (finishOwner_spec hacc).2.2.2.2.2
  · exact (finishOwner_spec hacc).2.2.2.2.2

/-- An offered head was done before or finishes now. -/
theorem done_or_headNow (h : retireValid cfg s i = true) :
    s.done s.head = true ∨ headNow cfg s i = true := by
  simp only [retireValid, retireSettled, Bool.or_eq_true, Bool.and_eq_true] at h
  simp only [headNow, Bool.or_eq_true]
  tauto

/-- A finished entry that stays keeps its slot, its finished bit and the packet
the edge stores. -/
structure Stays (cfg : Config) (s : State) (i : Input) (k : ℕ) : Prop where
  lt : k - pops cfg s i < (step cfg s i).count
  slot : slotAt (step cfg s i) (k - pops cfg s i) = slotAt s k
  done : (step cfg s i).done (slotAt s k) = true

theorem stays (hs : RingInv s) (hi : LegalInput cfg s i) (hpop : pops cfg s i ≤ kept cfg s i)
    {k : ℕ} (hk : pops cfg s i ≤ k) (hk' : k < kept cfg s i)
    (hdone : s.done (slotAt s k) = true ∨ finishes cfg s i (entryAt s k) = true) :
    Stays cfg s i k := by
  obtain ⟨hlt, hentry⟩ := entryAt_step hs hi hpop hk hk'
  have hslot : slotAt (step cfg s i) (k - pops cfg s i) = slotAt s k :=
    congrArg (fun e : Entry => e.tag.index) hentry
  have hbit : (step cfg s i).done (slotAt (step cfg s i) (k - pops cfg s i)) =
      (s.done (slotAt s k) || finishes cfg s i (entryAt s k)) := congrArg Entry.done hentry
  refine ⟨hlt, hslot, ?_⟩
  rw [hslot] at hbit
  rw [hbit, Bool.or_eq_true]
  exact hdone

/-- The head that is offered and not taken stays. -/
theorem head_stays (hs : RingInv s) (hi : LegalInput cfg s i)
    (hpop : pops cfg s i ≤ kept cfg s i) (hvalid : retireValid cfg s i = true)
    (hfire : retireFire cfg s i = false) (hkept : 0 < kept cfg s i) : Stays cfg s i 0 := by
  have hpops : pops cfg s i = 0 := by simp [pops, retire1Fire, hfire]
  refine stays hs hi hpop (by omega) hkept ?_
  rcases done_or_headNow hvalid with hdone | hnow
  · exact Or.inl (by rwa [slotAt_zero hs])
  · have hlane := @headLane_agrees cfg s i hs.headInv (pendingHead_of_headNow hnow)
    rw [← slotAt_zero hs] at hlane
    exact Or.inr (finishes_of_lane hlane hnow)

/-- A CQ[1] that finishes on this edge and does not retire stays. -/
theorem head1_stays (hs : RingInv s) (hi : LegalInput cfg s i)
    (hpop : pops cfg s i ≤ kept cfg s i) (hnow : head1Now cfg s i = true)
    (hfire : retire1Fire cfg s i = false) : 1 < kept cfg s i ∧ Stays cfg s i 1 := by
  have hpops : pops cfg s i ≤ 1 := by
    simp only [pops, hfire, Bool.toNat_false, Nat.add_zero]
    exact Bool.toNat_le _
  have hpend := pendingHead1_of_head1Now hnow
  have hlane : LaneAgrees cfg s i s.head1 (pendingHead1Kill cfg s i) (head1Now0 cfg s i)
      (head1Now1 cfg s i) (head1Now2 cfg s i) := head1Lane_agrees hs.headInv hpend
  have hkill := not_killed_of_lane hlane hnow
  simp only [pendingHead1, Bool.and_eq_true, decide_eq_true_eq] at hpend
  rw [← slotAt_one hs] at hlane hkill
  have hkept := lt_kept_of_not_killed hs hpend.1.1 hkill
  exact ⟨hkept, stays hs hi hpop (by omega) hkept (Or.inr (finishes_of_lane hlane hnow))⟩

end Later

/-! ## The two offers are one -/

/-- A finish that arrives in the cycle of its offer changes nothing an offer made
a cycle later would show. -/
structure WritebackHarmless (cfg : Config) (s : State) (i : Input) : Prop where
  /-- The head is offered as it is stored. -/
  head : headNow cfg s i = true →
    retireValid cfg s i = true ∧ retire cfg s i = (step cfg s i).packets s.head
  /-- So is CQ[1]. -/
  head1 : head1Now cfg s i = true → retire1Valid cfg s i = true →
    retire1 cfg s i = (step cfg s i).packets s.head1
  /-- A head that is not taken is offered again, the same. -/
  headAgain : headNow cfg s i = true → retireFire cfg s i = false → ∀ j, j.rstN = true →
    retireValid cfg (step cfg s i) j = true ∧ retire cfg (step cfg s i) j = retire cfg s i
  /-- A CQ[1] left behind by the head is offered as the next head, the same. -/
  head1Head : head1Now cfg s i = true → retire1Valid cfg s i = true →
    retireFire cfg s i = true → retire1Fire cfg s i = false → ∀ j, j.rstN = true →
      retireValid cfg (step cfg s i) j = true ∧ retire cfg (step cfg s i) j = retire1 cfg s i
  /-- A pair that is not taken is offered again, the same, unless a later recovery
  removes CQ[1]. -/
  head1Again : head1Now cfg s i = true → retire1Valid cfg s i = true →
    retireFire cfg s i = false → ∀ j, j.rstN = true →
      redirectKill cfg (step cfg s i) j s.head1 = false →
        retire1Valid cfg (step cfg s i) j = true ∧
          retire1 cfg (step cfg s i) j = retire1 cfg s i
  /-- Clean finishes leave the pairing of the stored packets as it was. -/
  pair : 1 < s.count → CleanAt cfg s i s.head → CleanAt cfg s i s.head1 →
    pairOk ((step cfg s i).packets s.head) ((step cfg s i).packets s.head1) =
      pairOk (s.packets s.head) (s.packets s.head1)

section Harmless

variable {cfg : Config} {s : State} {i : Input}

/-- A head that finishes on this edge is kept by it. -/
theorem kept_pos_of_headNow (hs : RingInv s) (hnow : headNow cfg s i = true) :
    0 < kept cfg s i := by
  have hpend := pendingHead_of_headNow hnow
  have hlane : LaneAgrees cfg s i s.head (pendingHeadKill cfg s i) (headNow0 cfg s i)
      (headNow1 cfg s i) (headNow2 cfg s i) := headLane_agrees hs.headInv hpend
  have hkill := not_killed_of_lane hlane hnow
  simp only [pendingHead, Bool.and_eq_true, decide_eq_true_eq, ne_eq] at hpend
  rw [← slotAt_zero hs] at hkill
  exact lt_kept_of_not_killed hs (Nat.pos_of_ne_zero hpend.1.1) hkill

/-- An offered head is finished cleanly, if at all. -/
theorem cleanAt_head (hs : RingInv s) (hports : PortRules cfg s i)
    (hvalid : retireValid cfg s i = true) : CleanAt cfg s i s.head := by
  rcases done_or_headNow hvalid with hdone | hnow
  · exact cleanAt_of_done hdone
  · exact cleanAt_of_lane hports (headLane_agrees hs.headInv (pendingHead_of_headNow hnow)) hnow

/-- The pair that is offered with CQ[1] arriving is offered again. -/
theorem pair_again (hs : RingInv s) (hi : LegalInput cfg s i)
    (hpop : pops cfg s i ≤ kept cfg s i) (hnext : RingInv (step cfg s i))
    (hports : PortRules cfg s i) (hnow : head1Now cfg s i = true)
    (hvalid : retire1Valid cfg s i = true) (hfire : retireFire cfg s i = false) {j : Input}
    (hj : j.rstN = true) (hkill : redirectKill cfg (step cfg s i) j s.head1 = false) :
    retire1Valid cfg (step cfg s i) j = true ∧
      retire1 cfg (step cfg s i) j = (step cfg s i).packets s.head1 := by
  have hpops : pops cfg s i = 0 := by simp [pops, retire1Fire, hfire]
  have hoffer := hvalid
  simp only [retire1Valid, Bool.and_eq_true, decide_eq_true_eq] at hoffer
  obtain ⟨⟨⟨⟨⟨hpair, hv⟩, hcount⟩, -⟩, -⟩, hok⟩ := hoffer
  obtain ⟨hkept, h1⟩ := head1_stays hs hi hpop hnow (by simp [retire1Fire, hfire])
  have h0 := head_stays hs hi hpop hv hfire (by omega)
  have hhead : (step cfg s i).head = s.head := by
    rw [← slotAt_zero hnext, ← slotAt_zero hs, ← h0.slot, hpops]
  have hhead1 : (step cfg s i).head1 = s.head1 := by
    rw [← slotAt_one hnext, ← slotAt_one hs, ← h1.slot, hpops]
  have hlt := h1.lt
  have hd0 := h0.done
  have hd1 := h1.done
  rw [slotAt_zero hs, ← hhead] at hd0
  rw [slotAt_one hs, ← hhead1] at hd1
  rw [hpops] at hlt
  have hretire := @retire_of_done cfg _ j hnext hj (by omega) hd0
  have hclean1 : CleanAt cfg s i s.head1 :=
    cleanAt_of_lane hports (head1Lane_agrees hs.headInv (pendingHead1_of_head1Now hnow)) hnow
  have hok' := pairOk_stored hs hi hcount (cleanAt_head hs hports hv) hclean1
  rw [← step_packets hi, hok] at hok'
  have h := retire1_of_done (i := j) hnext hpair hretire.1 hlt hd1 (by rwa [hhead1])
    (by rwa [hhead, hhead1])
  rwa [hhead1] at h

/-- **Retiring in the writeback cycle changes nothing**, on one edge. -/
theorem writebackHarmless (hs : RingInv s) (hi : LegalInput cfg s i)
    (hpop : pops cfg s i ≤ kept cfg s i) (hports : PortRules cfg s i) :
    WritebackHarmless cfg s i := by
  have hnext : RingInv (step cfg s i) := ringInv_step hpop hs hi
  have hstored : headNow cfg s i = true →
      retireValid cfg s i = true ∧ retire cfg s i = (step cfg s i).packets s.head := by
    intro hnow
    have hvalid := retireValid_of_headNow hi.running hnow
    rw [step_packets hi]
    exact ⟨hvalid, retire_stored hs.headInv hports hvalid hnow⟩
  have hstored1 : head1Now cfg s i = true → retire1Valid cfg s i = true →
      retire1 cfg s i = (step cfg s i).packets s.head1 := by
    intro hnow hvalid
    rw [step_packets hi]
    exact retire1_stored hs.headInv hports hvalid hnow
  refine ⟨hstored, hstored1, ?_, ?_, ?_, ?_⟩
  · intro hnow hfire j hj
    obtain ⟨hvalid, heq⟩ := hstored hnow
    have hpops : pops cfg s i = 0 := by simp [pops, retire1Fire, hfire]
    have h0 := head_stays hs hi hpop hvalid hfire (kept_pos_of_headNow hs hnow)
    have hhead : (step cfg s i).head = s.head := by
      rw [← slotAt_zero hnext, ← slotAt_zero hs, ← h0.slot, hpops]
    have hdone := h0.done
    have hlt := h0.lt
    rw [slotAt_zero hs, ← hhead] at hdone
    have hretire := @retire_of_done cfg _ j hnext hj (by omega) hdone
    rw [heq, ← hhead]
    exact hretire
  · intro hnow hvalid hfire hfire1 j hj
    have hpops : pops cfg s i = 1 := by simp [pops, hfire, hfire1]
    obtain ⟨-, h1⟩ := head1_stays hs hi hpop hnow hfire1
    have hhead : (step cfg s i).head = s.head1 := by
      rw [← slotAt_zero hnext, ← slotAt_one hs, ← h1.slot, hpops]
    have hdone := h1.done
    have hlt := h1.lt
    rw [slotAt_one hs, ← hhead] at hdone
    have hretire := @retire_of_done cfg _ j hnext hj (by omega) hdone
    rw [hstored1 hnow hvalid, ← hhead]
    exact hretire
  · intro hnow hvalid hfire j hj hkill
    rw [hstored1 hnow hvalid]
    exact pair_again hs hi hpop hnext hports hnow hvalid hfire hj hkill
  · intro hcount hclean hclean1
    rw [step_packets hi]
    exact pairOk_stored hs hi hcount hclean hclean1

end Harmless

/-! ## Runs -/

/-- **Retiring in the writeback cycle changes nothing**, on any edge of any legal
run whose finish ports keep their restrictions. -/
theorem writeback_changes_nothing (cfg : Config) (r : Clocked.Run (machine cfg)) (n : ℕ)
    (hlegal : r.Obeys (fun s i => LegalInput cfg s i ∧ LegalRecovery cfg s i) (n + 1))
    (hports : PortRules cfg (r.state n) (r.input n)) :
    WritebackHarmless cfg (r.state n) (r.input n) := by
  have hs := (queueInv_legal (hlegal.mono (Nat.le_succ n))).ring
  obtain ⟨hi, hr⟩ := hlegal n (Nat.lt_succ_self n)
  exact writebackHarmless hs hi (pops_le_kept_of_legal hs hi hr) hports

/-- A run that allocates a pair and then finishes both entries at once, the head on
the first port and CQ[1] on the second, with nothing taken. -/
def writebackRun : Clocked.Run (machine fullConfig) where
  start := resetState
  initial := initial_reset fullConfig
  input
    | 0 => { allocValid := true, alloc1Valid := true
             alloc1 := { (default : RetirePacket) with cq1Ok := true } }
    | _ => { resultValid := true, resultRetire := true
             result := { (default : ResultPacket) with producer := ⟨0, 1⟩ }
             result1Valid := true, result1Retire := true
             result1 := { (default : ResultPacket) with producer := ⟨1, 1⟩ } }

/-- Both are offered in the cycle their results arrive. -/
theorem writeback_changes_nothing_pair :
    headNow fullConfig (writebackRun.state 1) (writebackRun.input 1) = true ∧
      head1Now fullConfig (writebackRun.state 1) (writebackRun.input 1) = true ∧
      retire1Valid fullConfig (writebackRun.state 1) (writebackRun.input 1) = true ∧
      WritebackHarmless fullConfig (writebackRun.state 1) (writebackRun.input 1) := by
  have hlegal : writebackRun.Obeys
      (fun s i => LegalInput fullConfig s i ∧ LegalRecovery fullConfig s i) 2 := by
    intro k hk
    interval_cases k <;>
      exact ⟨⟨rfl, by decide, by decide, nofun⟩, ⟨nofun, nofun, nofun⟩⟩
  have hports : PortRules fullConfig (writebackRun.state 1) (writebackRun.input 1) :=
    ⟨by decide, by decide, by decide, by decide, by decide⟩
  exact ⟨by decide, by decide, by decide, writeback_changes_nothing fullConfig writebackRun 1 hlegal hports⟩

end Completion
end SloPPC603
