import SloPPC603.Flags.Pending

/-!
# The CA and SO hazard rule

A lane that takes CA or SO waits for the bit's pending register, so nothing older
than it writes the bit, and the copy it took is the bit's value once everything
older has retired.  An integer form that writes OV returns SO as its copy or its
overflow, so a set SO stays set.

* `HazardInv`, `hazardInv_step` — the copies are right, and a finished integer form
  keeps a set SO.
* `retired_spec` — the packets that retire are those of the oldest entries.
* `xer_hazard` — dispatch, the copies at retirement, and SO over a whole run.
-/

namespace SloPPC603
namespace Flags

open Completion (Entry entries)
open Clocked (Run)

variable {cfg : Config} {s : System} {i : Input} {b : XerBit}

/-! ## What an integer form returns for SO -/

section Summary

/-- `result_o.so` of `ppc_iu.sv`: the copy of SO, or the operation's overflow. -/
def finalSo (o : Operand) (ov : Bool) : Bool := o.uop.writeOvSo && (o.soIn || ov)

/-- What the integer units answer for the operations they hold: `finalSo` on the
first two ports, and nothing on the load/store unit's. -/
structure IuResults (s : System) (i : Input) : Prop where
  port0 : ∀ o ∈ s.operands, o.uop.specialOp = .none → i.cq.resultValid = true →
    i.cq.result.producer = o.tag → i.cq.result.so = finalSo o i.cq.result.ov
  port1 : ∀ o ∈ s.operands, o.uop.specialOp = .none → i.cq.result1Valid = true →
    i.cq.result1.producer = o.tag → i.cq.result1.so = finalSo o i.cq.result1.ov
  port2 : ∀ o ∈ s.operands, o.uop.specialOp = .none → i.cq.result2Valid = true →
    i.cq.result2.producer ≠ o.tag

/-- The entry's operation computes SO from a copy that is set. -/
structure KeepsSo (x : Entry × Operand) : Prop where
  integer : x.2.uop.specialOp = .none
  writeXer : x.1.packet.writeXer = false
  writeOvSo : x.1.packet.writeOvSo = true
  claims : x.2.uop.writeOvSo = true
  soIn : x.2.soIn = true

theorem KeepsSo.finalSo_eq {x : Entry × Operand} (hx : KeepsSo x) (ov : Bool) :
    finalSo x.2 ov = true := by
  simp [finalSo, hx.claims, hx.soIn]

theorem xerBits_so (ov ca : Bool) : (Completion.xerBits true ov ca).getLsbD 31 = true := by
  cases ov <;> cases ca <;> rfl

/-- The result's SO reaches the packet's delta. -/
theorem finished_so {p : RetirePacket} {r : ResultPacket} (hxer : p.writeXer = false)
    (hov : p.writeOvSo = true) (hso : r.so = true) :
    (Completion.finished p r).xerDelta.getLsbD 31 = true := by
  have hdelta : (Completion.finished p r).xerDelta =
      Completion.xerBits true (p.writeOvSo && r.ov) (p.writeCa && r.ca) := by
    simp [Completion.finished, hxer, hov, hso]
  rw [hdelta, xerBits_so]

theorem finished1_so {p : RetirePacket} {r : ResultPacket} (hov : p.writeOvSo = true)
    (hso : r.so = true) : (Completion.finished1 p r).xerDelta.getLsbD 31 = true := by
  have hdelta : (Completion.finished1 p r).xerDelta =
      Completion.xerBits true (p.writeOvSo && r.ov) (p.writeCa && r.ca) := by
    simp [Completion.finished1, hov, hso]
  rw [hdelta, xerBits_so]

/-- A result that names an entry the operation keeps SO in carries SO. -/
theorem IuResults.so_port0 (hiu : IuResults s i) (hp : Paired s) {x : Entry × Operand}
    (hmem : x ∈ flight s) (hx : KeepsSo x) (hv : i.cq.resultValid = true)
    (htag : i.cq.result.producer = x.1.tag) : i.cq.result.so = true := by
  rw [← hp.tag_eq hmem] at htag
  rw [hiu.port0 x.2 (mem_operands_of_flight hmem) hx.integer hv htag, hx.finalSo_eq]

theorem IuResults.so_port1 (hiu : IuResults s i) (hp : Paired s) {x : Entry × Operand}
    (hmem : x ∈ flight s) (hx : KeepsSo x) (hv : i.cq.result1Valid = true)
    (htag : i.cq.result1.producer = x.1.tag) : i.cq.result1.so = true := by
  rw [← hp.tag_eq hmem] at htag
  rw [hiu.port1 x.2 (mem_operands_of_flight hmem) hx.integer hv htag, hx.finalSo_eq]

theorem IuResults.not_port2 (hiu : IuResults s i) (hp : Paired s) {x : Entry × Operand}
    (hmem : x ∈ flight s) (hx : KeepsSo x) (hv : i.cq.result2Valid = true) :
    i.cq.result2.producer ≠ x.1.tag := by
  rw [← hp.tag_eq hmem]
  exact hiu.port2 x.2 (mem_operands_of_flight hmem) hx.integer hv

/-- A finish leaves the delta of such an entry with SO set. -/
theorem settle_keepsSo (hiu : IuResults s i) (hp : Paired s) {x : Entry × Operand}
    (hmem : x ∈ flight s) (hx : KeepsSo x)
    (hdone : x.1.done = true → x.1.packet.xerDelta.getLsbD 31 = true)
    (hfin : (Completion.settle cfg.cq s.cq (ports cfg s i) x.1).done = true)
    (hkeep : (Completion.settle cfg.cq s.cq (ports cfg s i) x.1).packet.writeOvSo = true) :
    (Completion.settle cfg.cq s.cq (ports cfg s i) x.1).packet.xerDelta.getLsbD 31 = true := by
  simp only [Completion.settle, Completion.finishedPacket] at hfin hkeep ⊢
  by_cases h2 : Completion.finish2Accept cfg.cq s.cq (ports cfg s i) = true ∧
      (ports cfg s i).result2.producer = x.1.tag
  · have hv : i.cq.result2Valid = true := (Completion.finishOwner_spec h2.1).1
    exact absurd h2.2 (hiu.not_port2 hp hmem hx hv)
  rw [if_neg h2] at hkeep ⊢
  by_cases h1 : Completion.finish1Accept cfg.cq s.cq (ports cfg s i) = true ∧
      (ports cfg s i).result1.producer = x.1.tag
  · have hv : i.cq.result1Valid = true := (Completion.finishOwner_spec h1.1).1
    rw [if_pos h1]
    exact finished1_so hx.writeOvSo (hiu.so_port1 hp hmem hx hv h1.2)
  rw [if_neg h1] at hkeep ⊢
  by_cases h0 : Completion.finishAccept cfg.cq s.cq (ports cfg s i) = true ∧
      (ports cfg s i).result.producer = x.1.tag
  · have hv : i.cq.resultValid = true := (Completion.finishOwner_spec h0.1).1
    rw [if_pos h0] at hkeep ⊢
    rw [Completion.finishInto] at hkeep ⊢
    split_ifs at hkeep ⊢
    · -- a fault takes the entry's permission to write SO
      exact absurd hkeep (by simp [Completion.mergeFault, Completion.faulted])
    · exact finished_so hx.writeXer hx.writeOvSo (hiu.so_port0 hp hmem hx hv h0.2)
  rw [if_neg h0] at hkeep ⊢
  have hnone : Completion.finishes cfg.cq s.cq (ports cfg s i) x.1 = false := by
    simp only [Completion.finishes, ← Bool.not_eq_true, Bool.or_eq_true, Bool.and_eq_true,
      decide_eq_true_eq]
    tauto
  rw [hnone, Bool.or_false] at hfin
  exact hdone hfin

/-- The head retires with SO set in its delta. -/
theorem retire_keepsSo (hs : Completion.RingInv s.cq) (hiu : IuResults s i) (hp : Paired s)
    {x : Entry × Operand} (hmem : x ∈ flight s) (hx : KeepsSo x)
    (hhead : x.1 = Completion.entryAt s.cq 0)
    (hdone : x.1.done = true → x.1.packet.xerDelta.getLsbD 31 = true)
    (hc : commit cfg s i = true) : (retireO cfg s i).xerDelta.getLsbD 31 = true := by
  show (Completion.retire cfg.cq s.cq (ports cfg s i)).xerDelta.getLsbD 31 = true
  have hvalid : Completion.retireValid cfg.cq s.cq (ports cfg s i) = true := by
    simp only [commit, Completion.retireFire, Bool.and_eq_true] at hc
    exact hc.1
  have hmatch : ∀ r : ResultPacket, Completion.headResultMatch s.cq r = true →
      r.producer = x.1.tag := by
    intro r hr
    simp only [Completion.headResultMatch, Bool.and_eq_true, decide_eq_true_eq] at hr
    have htag : r.producer = ⟨r.producer.index, r.producer.generation⟩ := rfl
    rw [htag, hr.1.2, hr.2, hhead, Completion.entryAt_zero hs]
  rw [Completion.entryAt_zero hs] at hhead
  have hpacket : s.cq.packets s.cq.head = x.1.packet := by rw [hhead]
  rw [Completion.retire, if_pos hvalid, hpacket]
  split_ifs with h0 h1 h2
  · simp only [Completion.headNow0, Bool.and_eq_true] at h0
    exact finished_so hx.writeXer hx.writeOvSo
      (hiu.so_port0 hp hmem hx h0.1.1.1.1 (hmatch _ h0.1.2))
  · simp only [Completion.headNow1, Bool.and_eq_true] at h1
    exact finished1_so hx.writeOvSo (hiu.so_port1 hp hmem hx h1.1.1.1 (hmatch _ h1.1.2))
  · simp only [Completion.headNow2, Bool.and_eq_true] at h2
    exact absurd (hmatch _ h2.1.2) (hiu.not_port2 hp hmem hx h2.1.1.1)
  · apply hdone
    simp only [Completion.retireValid, Completion.retireSettled, h0, h1, h2, Bool.or_self,
      Bool.and_false, Bool.or_false, Bool.and_eq_true] at hvalid
    rw [hhead]
    exact hvalid.2

/-- So does the entry behind it. -/
theorem retire1_keepsSo (hs : Completion.RingInv s.cq) (hiu : IuResults s i) (hp : Paired s)
    {x : Entry × Operand} (hmem : x ∈ flight s) (hx : KeepsSo x)
    (hhead : x.1 = Completion.entryAt s.cq 1)
    (hdone : x.1.done = true → x.1.packet.xerDelta.getLsbD 31 = true)
    (hc : commit1 cfg s i = true) : (retire1O cfg s i).xerDelta.getLsbD 31 = true := by
  have hvalid : Completion.retire1Valid cfg.cq s.cq (ports cfg s i) = true :=
    (Completion.retire1Fire_spec hc).2.1
  have hmatch : ∀ r : ResultPacket, Completion.head1ResultMatch s.cq r = true →
      r.producer = x.1.tag := by
    intro r hr
    simp only [Completion.head1ResultMatch, Bool.and_eq_true, decide_eq_true_eq] at hr
    have htag : r.producer = ⟨r.producer.index, r.producer.generation⟩ := rfl
    rw [htag, hr.1.2, hr.2, hhead, Completion.entryAt_one hs]
  rw [Completion.entryAt_one hs] at hhead
  have hpacket : s.cq.packets s.cq.head1 = x.1.packet := by rw [hhead]
  rw [retire1O, Completion.retire1, if_pos hvalid, hpacket]
  split_ifs with h0 h1 h2
  · simp only [Completion.head1Now0, Bool.and_eq_true] at h0
    exact finished_so hx.writeXer hx.writeOvSo
      (hiu.so_port0 hp hmem hx h0.1.1.1.1 (hmatch _ h0.1.2))
  · simp only [Completion.head1Now1, Bool.and_eq_true] at h1
    exact finished1_so hx.writeOvSo (hiu.so_port1 hp hmem hx h1.1.1.1 (hmatch _ h1.1.2))
  · simp only [Completion.head1Now2, Bool.and_eq_true] at h2
    exact absurd (hmatch _ h2.1.2) (hiu.not_port2 hp hmem hx h2.1.1.1)
  · apply hdone
    simp only [Completion.retire1Valid, h0, h1, h2, Bool.or_false, Bool.and_eq_true] at hvalid
    rw [hhead]
    exact hvalid.1.2.1

end Summary

/-! ## The invariant -/

section Invariant

/-- What is known of the operation behind an entry. -/
structure Known (x : Entry × Operand) : Prop where
  disciplined : ∃ insn, Disciplined insn x.2.uop
  writeXer : x.1.packet.writeXer = true → x.2.uop.writeXer = true
  writeOvSo : x.1.packet.writeOvSo = true → x.2.uop.writeOvSo = true

/-- Nothing in flight writes a bit that something younger took; every copy is the
committed bit; and a finished entry keeps a set SO. -/
structure HazardInv (s : System) : Prop where
  ring : Completion.RingInv s.cq
  writes : WritesNeedFlags s
  paired : Paired s
  pend : ∀ b, PendingInv b s
  ordered : ∀ b : XerBit, (flight s).Pairwise fun x y =>
    b.takes y.2.uop = true → b.writes x.1.packet = false
  held : ∀ b : XerBit, ∀ x ∈ flight s, b.takes x.2.uop = true →
    b.held x.2 = s.flags.xer.getLsbD b.index
  known : ∀ x ∈ flight s, Known x
  summary : ∀ x ∈ flight s, KeepsSo x → x.1.done = true →
    x.1.packet.xerDelta.getLsbD 31 = true

theorem hazardInv_reset : HazardInv System.reset where
  ring := Completion.ringInv_resetState
  writes := fun _ he => absurd he List.not_mem_nil
  paired := rfl
  pend := fun _ => ⟨fun _ he => absurd he List.not_mem_nil, List.Pairwise.nil⟩
  ordered := fun _ => List.Pairwise.nil
  held := fun _ _ hx => absurd hx List.not_mem_nil
  known := fun _ hx => absurd hx List.not_mem_nil
  summary := fun _ hx => absurd hx List.not_mem_nil

/-- The rules of one cycle, the integer units' answers among them. -/
def HazardLegal (cfg : Config) (s : System) (i : Input) : Prop := Legal cfg s i ∧ IuResults s i

/-! ### What enters -/

/-- The copy a lane takes is the committed bit. -/
theorem held_capture {insn : BitVec 32} {u : Uop} (hd : Disciplined insn u)
    (ht : b.takes u = true) (tag : CompletionTag) :
    b.held (capture s tag u) = s.flags.xer.getLsbD b.index := by
  by_cases hop : u.specialOp = .none
  · have hr := XerBit.reads_of_takes hd hop ht
    cases b
    · simp only [XerBit.reads] at hr
      simp [XerBit.held, capture, hop, hr, XerBit.index]
    · simp only [XerBit.reads] at hr
      simp [XerBit.held, capture, hop, hr, XerBit.index]
  · cases b <;> simp [XerBit.held, capture, hop, XerBit.index]

theorem known_fresh0 : Known (fresh0 cfg s i) where
  disciplined := ⟨_, i.lane0.uop_disciplined cfg.decode⟩
  writeXer := by
    intro hw
    simp only [fresh0, Completion.normalize, allocation0, Lane.allocation,
      Bool.and_eq_true] at hw
    exact hw.1
  writeOvSo := by
    intro hw
    simp only [fresh0, Completion.normalize, allocation0, Lane.allocation,
      Bool.and_eq_true] at hw
    exact hw.1

theorem known_fresh1 : Known (fresh1 cfg s i) where
  disciplined := ⟨_, i.lane1.uop_disciplined cfg.decode⟩
  writeXer := by
    intro hw
    simp only [fresh1, Completion.normalize, allocation1, Lane.allocation,
      Bool.and_eq_true] at hw
    exact hw.1
  writeOvSo := by
    intro hw
    simp only [fresh1, Completion.normalize, allocation1, Lane.allocation,
      Bool.and_eq_true] at hw
    exact hw.1

/-- An integer writer of SO does not enter finished. -/
theorem fresh0_not_done (h : Legal cfg s i) (hx : KeepsSo (fresh0 cfg s i)) :
    (fresh0 cfg s i).1.done = false := by
  have hop : (uop0 cfg i).specialOp = .none := hx.integer
  have hw : (uop0 cfg i).writeOvSo = true := hx.claims
  have hlegal : (uop0 cfg i).illegal = false := by
    have hkeep := hx.writeOvSo
    simp only [fresh0, Completion.normalize, allocation0, Lane.allocation, Bool.and_eq_true,
      Bool.not_eq_true'] at hkeep
    exact hkeep.2
  have hfp : i.lane0.fp = false := by
    by_contra hf
    have hclash : (uop0 cfg i).specialOp = .fpu := h.lane0.fp (by simpa using hf)
    rw [hop] at hclash
    cases hclash
  have hfinished : i.lane0.finished = false := by
    by_contra hf
    have hfree : (uop0 cfg i).flagFree = true :=
      h.lane0.branch_flagFree (h.lane0.finished (by simpa using hf))
    rw [(Uop.flagFree_writes hfree).2.2.1] at hw
    cases hw
  simp [fresh0, allocation0, Lane.allocation, hlegal, hfp, hfinished]

theorem fresh1_not_done (h : Legal cfg s i) (hx : KeepsSo (fresh1 cfg s i)) :
    (fresh1 cfg s i).1.done = false := by
  have hop : (uop1 cfg i).specialOp = .none := hx.integer
  have hw : (uop1 cfg i).writeOvSo = true := hx.claims
  have hfp : i.lane1.fp = false := by
    by_contra hf
    have hclash : (uop1 cfg i).specialOp = .fpu := h.lane1.fp (by simpa using hf)
    rw [hop] at hclash
    cases hclash
  have hbranch : i.lane1.branch = false := by
    by_contra hf
    have hfree : (uop1 cfg i).flagFree = true := h.lane1.branch_flagFree (by simpa using hf)
    rw [(Uop.flagFree_writes hfree).2.2.1] at hw
    cases hw
  simp [fresh1, allocation1, Lane.allocation, hfp, hbranch]

/-! ### What stays -/

theorem writeXer_of_settle {e : Entry} (h : (Completion.settle cfg.cq s.cq (ports cfg s i)
    e).packet.writeXer = true) : e.packet.writeXer = true := by
  simp only [Completion.settle, Completion.finishedPacket, Completion.finishInto] at h
  split_ifs at h <;>
    first
      | exact h
      | exact absurd h (by simp [Completion.mergeFault, Completion.faulted])

theorem writeOvSo_of_settle {e : Entry} (h : (Completion.settle cfg.cq s.cq (ports cfg s i)
    e).packet.writeOvSo = true) : e.packet.writeOvSo = true := by
  simp only [Completion.settle, Completion.finishedPacket, Completion.finishInto] at h
  split_ifs at h <;>
    first
      | exact h
      | exact absurd h (by simp [Completion.mergeFault, Completion.faulted])

/-- An entry that keeps SO after a finish kept it before. -/
theorem KeepsSo.of_settle {x : Entry × Operand} (hk : Known x)
    (hx : KeepsSo (Prod.map (Completion.settle cfg.cq s.cq (ports cfg s i)) id x)) :
    KeepsSo x where
  integer := hx.integer
  writeXer := by
    by_contra hw
    obtain ⟨insn, hd⟩ := hk.disciplined
    have hclash := hk.writeXer (by simpa using hw)
    rw [(hd.integer hx.integer).1] at hclash
    cases hclash
  writeOvSo := writeOvSo_of_settle hx.writeOvSo
  claims := hx.claims
  soIn := hx.soIn

/-! ### What retires -/

/-- What an entry in flight and the packet it retires as have in common. -/
structure RetiresAs (x : Entry × Operand) (p : RetirePacket) : Prop where
  writes : ∀ b : XerBit, b.writes p = b.writes x.1.packet
  keepsSo : KeepsSo x → p.xerDelta.getLsbD 31 = true

theorem flight_getElem? (hI : HazardInv s) {k : ℕ} {x : Entry × Operand}
    (hx : (flight s)[k]? = some x) : x.1 = Completion.entryAt s.cq k := by
  have hmap : ((flight s).map Prod.fst)[k]? = some x.1 := by simp [hx]
  rw [hI.paired.map_fst] at hmap
  obtain ⟨hk, heq⟩ := List.getElem?_eq_some_iff.1 hmap
  rw [← heq, Completion.getElem_entries]

theorem retiresAs_head (hI : HazardInv s) (hiu : IuResults s i) {x : Entry × Operand}
    (hx : (flight s)[0]? = some x) (hc : commit cfg s i = true) :
    RetiresAs x (retireO cfg s i) where
  writes := by
    intro b
    have hhead := flight_getElem? hI hx
    rw [Completion.entryAt_zero hI.ring] at hhead
    have hctl := writes_of_controls b (Completion.controls_retire hc)
    rw [hhead, ← hctl]
    cases b <;> rfl
  keepsSo := fun hk => retire_keepsSo hI.ring hiu hI.paired (List.mem_of_getElem? hx) hk
    (flight_getElem? hI hx) (hI.summary x (List.mem_of_getElem? hx) hk) hc

theorem retiresAs_second (hI : HazardInv s) (hiu : IuResults s i) {x : Entry × Operand}
    (hx : (flight s)[1]? = some x) (hc : commit1 cfg s i = true) :
    RetiresAs x (retire1O cfg s i) where
  writes := by
    intro b
    have hhead := flight_getElem? hI hx
    rw [Completion.entryAt_one hI.ring] at hhead
    have hctl := writes_of_controls b (Completion.controls_retire1 hc)
    rw [hhead, ← hctl]
    rfl
  keepsSo := fun hk => retire1_keepsSo hI.ring hiu hI.paired (List.mem_of_getElem? hx) hk
    (flight_getElem? hI hx) (hI.summary x (List.mem_of_getElem? hx) hk) hc

/-- **The retired packets are those of the retiring entries, in order.** -/
theorem retired_spec (hI : HazardInv s) (hiu : IuResults s i) :
    List.Forall₂ RetiresAs (retiring cfg s i) (retired cfg s i) := by
  have hlen : (flight s).length = s.cq.count := by
    rw [flight, List.length_zip, hI.paired.length, Nat.min_self, Completion.entries_length]
  have hpops : Completion.pops cfg.cq s.cq (ports cfg s i) =
      (commit cfg s i).toNat + (commit1 cfg s i).toNat := rfl
  rw [retiring, retired, hpops]
  cases h0 : commit cfg s i with
  | false =>
    have h1 : commit1 cfg s i = false := by
      by_contra hne
      rw [Bool.not_eq_false] at hne
      have hc : commit cfg s i = true := Completion.retireFire_of_retire1Fire hne
      rw [h0] at hc
      cases hc
    rw [h1]
    exact List.Forall₂.nil
  | true =>
    have hcount := Completion.retireFire_count h0
    obtain ⟨x0, rest, hf⟩ : ∃ x0 rest, flight s = x0 :: rest :=
      List.exists_cons_of_length_pos (by rw [hlen]; omega)
    have hx0 : (flight s)[0]? = some x0 := by rw [hf]; rfl
    have hhead := retiresAs_head hI hiu hx0 h0
    cases h1 : commit1 cfg s i with
    | false =>
      rw [hf]
      exact List.Forall₂.cons hhead List.Forall₂.nil
    | true =>
      have hcount1 := (Completion.retire1Fire_spec h1).2.2.2
      obtain ⟨x1, rest1, hf1⟩ : ∃ x1 rest1, rest = x1 :: rest1 :=
        List.exists_cons_of_length_pos (by
          rw [hf, List.length_cons] at hlen
          omega)
      have hx1 : (flight s)[1]? = some x1 := by rw [hf, hf1]; rfl
      rw [hf, hf1]
      exact List.Forall₂.cons hhead
        (List.Forall₂.cons (retiresAs_second hI hiu hx1 h1) List.Forall₂.nil)

/-- The `k`th packet retired writes what the `k`th retiring entry does. -/
theorem retired_writes (hI : HazardInv s) (hiu : IuResults s i) {k : ℕ}
    (hk : k < (retired cfg s i).length) : ∃ hk' : k < (retiring cfg s i).length,
      ∀ b : XerBit, b.writes (retired cfg s i)[k] = b.writes (retiring cfg s i)[k].1.packet := by
  have hspec := @retired_spec cfg s i hI hiu
  have hk' : k < (retiring cfg s i).length := by rw [hspec.length_eq]; exact hk
  exact ⟨hk', (hspec.get hk' hk).writes⟩

/-! ### One edge -/

/-- XER keeps a bit that no retiring entry writes. -/
theorem xer_bit_step (hI : HazardInv s) (h : Legal cfg s i) (hiu : IuResults s i)
    (hclear : ∀ x ∈ retiring cfg s i, b.writes x.1.packet = false) :
    (System.step cfg s i).flags.xer.getLsbD b.index = s.flags.xer.getLsbD b.index := by
  rw [xer_step hI.ring hI.writes h, foldl_commitXer_bit]
  intro p hp
  obtain ⟨k, hk, rfl⟩ := List.mem_iff_getElem.1 hp
  obtain ⟨hk', hwrites⟩ := retired_writes hI hiu hk
  rw [hwrites]
  exact hclear _ (List.getElem_mem hk')

/-- A lane that takes a bit sees no writer of it in flight. -/
theorem clear_lane0 (hI : HazardInv s) (h : Legal cfg s i) (hd : dispatch cfg s i = true)
    (ht : b.takes (uop0 cfg i) = true) : ∀ e ∈ entries s.cq, b.writes e.packet = false :=
  (hI.pend b).clear (clear_of_dispatch h hd ht)

theorem clear_lane1 (hI : HazardInv s) (h : Legal cfg s i) (hd : dispatch1 cfg s i = true)
    (ht : b.takes (uop1 cfg i) = true) : (∀ e ∈ entries s.cq, b.writes e.packet = false) ∧
      b.writes (fresh0 cfg s i).1.packet = false := by
  obtain ⟨hpend, hlane⟩ := clear_of_dispatch1 h hd ht
  refine ⟨(hI.pend b).clear (Or.inl hpend), ?_⟩
  by_contra hw
  rw [Bool.not_eq_false] at hw
  rw [writes_allocation0 h hw] at hlane
  cases hlane

/-- What enters and takes a bit enters behind no writer of it. -/
theorem clear_entering (hI : HazardInv s) (h : Legal cfg s i) {y : Entry × Operand}
    (hy : y ∈ entering cfg s i) (ht : b.takes y.2.uop = true) :
    ∀ e ∈ entries s.cq, b.writes e.packet = false := by
  rcases mem_entering hy with ⟨hd, rfl⟩ | ⟨hd, rfl⟩
  · exact clear_lane0 hI h hd ht
  · exact (clear_lane1 hI h hd ht).1

theorem ordered_step (hI : HazardInv s) (h : Legal cfg s i) :
    (flight (System.step cfg s i)).Pairwise fun x y =>
      b.takes y.2.uop = true → b.writes x.1.packet = false := by
  have hold := hI.ordered b
  rw [flight_split hI.ring h, List.pairwise_append, List.pairwise_append] at hold
  rw [flight_step hI.ring h hI.paired, List.pairwise_append]
  refine ⟨List.pairwise_map.2 ?_, ?_, ?_⟩
  · exact hold.2.1.1.imp fun hxy ht => writes_settle (hxy ht)
  · rw [entering]
    split_ifs with h0 h1 h1
    · rw [List.singleton_append, List.pairwise_pair]
      intro ht
      rw [Bool.and_eq_true] at h1
      exact (clear_lane1 hI h h1.1 ht).2
    all_goals simp
  · intro x hx y hy ht
    obtain ⟨x, hmem, rfl⟩ := List.mem_map.1 hx
    exact writes_settle (clear_entering hI h hy ht x.1
      (mem_entries_of_flight (mem_of_mem_remaining hmem)))

theorem held_step (hI : HazardInv s) (h : Legal cfg s i) (hiu : IuResults s i) :
    ∀ x ∈ flight (System.step cfg s i), b.takes x.2.uop = true →
      b.held x.2 = (System.step cfg s i).flags.xer.getLsbD b.index := by
  intro x hx ht
  rw [flight_step hI.ring h hI.paired] at hx
  have hold := hI.ordered b
  rw [flight_split hI.ring h, List.pairwise_append] at hold
  rcases List.mem_append.1 hx with hstay | hnew
  · obtain ⟨x, hmem, rfl⟩ := List.mem_map.1 hstay
    have hclear : ∀ y ∈ retiring cfg s i, b.writes y.1.packet = false :=
      fun y hy => hold.2.2 y hy x (List.mem_append_left _ hmem) ht
    rw [xer_bit_step hI h hiu hclear]
    exact hI.held b x (mem_of_mem_remaining hmem) ht
  · have hclear : ∀ y ∈ retiring cfg s i, b.writes y.1.packet = false :=
      fun y hy => clear_entering hI h hnew ht y.1
        (mem_entries_of_flight (List.mem_of_mem_take hy))
    rw [xer_bit_step hI h hiu hclear]
    rcases mem_entering hnew with ⟨-, rfl⟩ | ⟨-, rfl⟩
    · exact held_capture (i.lane0.uop_disciplined cfg.decode) ht _
    · exact held_capture (i.lane1.uop_disciplined cfg.decode) ht _

theorem known_step (hI : HazardInv s) (h : Legal cfg s i) :
    ∀ x ∈ flight (System.step cfg s i), Known x := by
  intro x hx
  rw [flight_step hI.ring h hI.paired] at hx
  rcases List.mem_append.1 hx with hstay | hnew
  · obtain ⟨x, hmem, rfl⟩ := List.mem_map.1 hstay
    have hk := hI.known x (mem_of_mem_remaining hmem)
    exact ⟨hk.disciplined, fun hw => hk.writeXer (writeXer_of_settle hw),
      fun hw => hk.writeOvSo (writeOvSo_of_settle hw)⟩
  · rcases mem_entering hnew with ⟨-, rfl⟩ | ⟨-, rfl⟩
    · exact known_fresh0
    · exact known_fresh1

theorem summary_step (hI : HazardInv s) (h : Legal cfg s i) (hiu : IuResults s i) :
    ∀ x ∈ flight (System.step cfg s i), KeepsSo x → x.1.done = true →
      x.1.packet.xerDelta.getLsbD 31 = true := by
  intro x hx hkeep hdone
  rw [flight_step hI.ring h hI.paired] at hx
  rcases List.mem_append.1 hx with hstay | hnew
  · obtain ⟨x, hmem, rfl⟩ := List.mem_map.1 hstay
    have hin := mem_of_mem_remaining hmem
    have hbefore := KeepsSo.of_settle (hI.known x hin) hkeep
    exact settle_keepsSo hiu hI.paired hin hbefore (hI.summary x hin hbefore) hdone
      hkeep.writeOvSo
  · rcases mem_entering hnew with ⟨-, rfl⟩ | ⟨-, rfl⟩
    · rw [fresh0_not_done h hkeep] at hdone
      cases hdone
    · rw [fresh1_not_done h hkeep] at hdone
      cases hdone

/-- **The hazard invariant survives every legal edge.** -/
theorem hazardInv_step (hI : HazardInv s) (hi : HazardLegal cfg s i) :
    HazardInv (System.step cfg s i) where
  ring := ringInv_step hI.ring hi.1
  writes := writesNeedFlags_step hI.ring hi.1 hI.writes
  paired := paired_step hI.ring hi.1 hI.paired
  pend := fun b => pendingInv_step hI.ring hi.1 (hI.pend b)
  ordered := fun _ => ordered_step hI hi.1
  held := fun _ => held_step hI hi.1 hi.2
  known := known_step hI hi.1
  summary := summary_step hI hi.1 hi.2

end Invariant

/-! ## SO stays set -/

section Sticky

/-- An instruction that writes XER itself: `mtspr` of XER and `mcrxr`. -/
def Uop.explicitXer (u : Uop) : Bool := u.writeXer || u.specialOp = .mcrxr

/-- A packet whose delta has SO set keeps a set SO. -/
theorem commitXer_so {p : RetirePacket} {xer : BitVec 32}
    (hp : p.xerDelta.getLsbD 31 = true) (hx : xer.getLsbD 31 = true) :
    (commitXer p xer).getLsbD 31 = true := by
  rw [commitXer, BitVec.getLsbD_or, BitVec.getLsbD_and, BitVec.getLsbD_and, BitVec.getLsbD_not,
    hp, hx]
  cases (xerMask p).getLsbD 31 <;> rfl

/-- An entry that writes SO without writing XER itself keeps a set SO. -/
theorem keepsSo_of_writes (hI : HazardInv s) (hso : s.flags.xer.getLsbD 31 = true)
    {x : Entry × Operand} (hx : x ∈ flight s) (hexp : x.2.uop.explicitXer = false)
    (hw : XerBit.so.writes x.1.packet = true) : KeepsSo x := by
  have hk := hI.known x hx
  obtain ⟨insn, hd⟩ := hk.disciplined
  simp only [Uop.explicitXer, Bool.or_eq_false_iff, decide_eq_false_iff_not] at hexp
  have hxer : x.1.packet.writeXer = false := by
    by_contra hne
    rw [hk.writeXer (by simpa using hne)] at hexp
    exact absurd hexp.1 (by simp)
  have hov : x.1.packet.writeOvSo = true := by
    simpa [XerBit.writes, hxer] using hw
  have hop : x.2.uop.specialOp = .none :=
    (hd.overflow (hk.writeOvSo hov)).resolve_right hexp.2
  have hread : XerBit.so.reads x.2.uop = true :=
    (hd.integer hop).2 (Or.inr (hk.writeOvSo hov))
  have hheld := hI.held .so x hx (by rw [XerBit.takes, hread, Bool.true_or])
  simp only [XerBit.held, hop, if_true, XerBit.index, hso] at hheld
  exact ⟨hop, hxer, hov, hk.writeOvSo hov, hheld⟩

/-- **SO stays set** unless an instruction that writes XER itself retires. -/
theorem so_step (hI : HazardInv s) (hi : HazardLegal cfg s i)
    (hexp : ∀ x ∈ retiring cfg s i, x.2.uop.explicitXer = false)
    (hso : s.flags.xer.getLsbD 31 = true) :
    (System.step cfg s i).flags.xer.getLsbD 31 = true := by
  rw [xer_step hI.ring hI.writes hi.1]
  have hspec := @retired_spec cfg s i hI hi.2
  have hmem : ∀ x ∈ retiring cfg s i, x ∈ flight s := fun x hx => List.mem_of_mem_take hx
  generalize retiring cfg s i = l, retired cfg s i = ps at hspec hexp hmem
  suffices hfold : ∀ xer : BitVec 32, xer.getLsbD 31 = true →
      (ps.foldl (fun xer p => commitXer p xer) xer).getLsbD 31 = true by
    exact hfold _ hso
  induction hspec with
  | nil => exact fun _ hx => hx
  | @cons x p l ps hxp _ ih =>
    intro xer hx
    have htail := ih (fun y hy => hexp y (List.mem_cons_of_mem x hy))
      (fun y hy => hmem y (List.mem_cons_of_mem x hy))
    rw [List.foldl_cons]
    apply htail
    by_cases hw : XerBit.so.writes x.1.packet = true
    · have hkeep := keepsSo_of_writes hI hso (hmem x List.mem_cons_self)
        (hexp x List.mem_cons_self) hw
      exact commitXer_so (hxp.keepsSo hkeep) hx
    · rw [Bool.not_eq_true, ← hxp.writes] at hw
      have hbit := commitXer_bit hw xer
      simp only [XerBit.index] at hbit
      rw [hbit, hx]

end Sticky

/-! ## Runs -/

section Runs

variable {r : Run (machine cfg)} {n : ℕ}

theorem hazardInv_run (h : r.Obeys (HazardLegal cfg) n) : HazardInv (r.state n) :=
  Run.invariant (I := HazardInv) (A := HazardLegal cfg)
    (fun s hinit => by rw [initial_eq hinit]; exact hazardInv_reset)
    (fun _ _ hI hi => hazardInv_step hI hi) h

/-- A lane that computes with the bit dispatches only while no older entry, lane
0's among them, writes it. -/
structure Waits (b : XerBit) (cfg : Config) (s : System) (i : Input) : Prop where
  lane0 : dispatch cfg s i = true → b.uses (uop0 cfg i) = true →
    ∀ e ∈ entries s.cq, b.writes e.packet = false
  lane1 : dispatch1 cfg s i = true → b.uses (uop1 cfg i) = true →
    (∀ e ∈ entries s.cq, b.writes e.packet = false) ∧
      b.writes (fresh0 cfg s i).1.packet = false

/-- XER after the instructions that retired on the first `k` edges and the first
`j` that retire on the next. -/
def xerBefore (r : Run (machine cfg)) (k j : ℕ) : BitVec 32 :=
  (r.emitted (retired cfg) 0 k ++ (retired cfg (r.state k) (r.input k)).take j).foldl
    (fun xer p => commitXer p xer) 0

theorem takes_of_uses {u : Uop} (h : b.uses u = true) : b.takes u = true := by
  rw [XerBit.takes, h, Bool.or_true]

/-- **A copy is the bit's value after every older instruction.** -/
theorem held_eq_xerBefore (h : r.Obeys (HazardLegal cfg) n) {k j : ℕ} (hk : k < n)
    {x : Entry × Operand} (hx : (retiring cfg (r.state k) (r.input k))[j]? = some x)
    (ht : b.takes x.2.uop = true) : b.held x.2 = (xerBefore r k j).getLsbD b.index := by
  have hinv : ∀ m, m ≤ k → HazardInv (r.state m) :=
    fun m hm => hazardInv_run (h.mono (hm.trans hk.le))
  have hI := hinv k le_rfl
  have hxer := (committed_eq (r := r) (n := k) fun m hm =>
    ⟨(hinv m hm.le).ring, (hinv m hm.le).writes, (h m (hm.trans hk)).1⟩).2
  have hord : (retiring cfg (r.state k) (r.input k)).Pairwise fun x y =>
      b.takes y.2.uop = true → b.writes x.1.packet = false :=
    (hI.ordered b).sublist (List.take_sublist _ _)
  rw [xerBefore, List.foldl_append, ← hxer, foldl_commitXer_bit]
  · exact hI.held b x (List.mem_of_mem_take (List.mem_of_getElem? hx)) ht
  · intro p hp
    obtain ⟨m, hm, rfl⟩ := List.mem_iff_getElem.1 hp
    rw [List.length_take, Nat.lt_min] at hm
    obtain ⟨hm', hwrites⟩ := retired_writes hI (h k hk).2 hm.2
    obtain ⟨hj, hxj⟩ := List.getElem?_eq_some_iff.1 hx
    rw [List.getElem_take, hwrites]
    exact List.pairwise_iff_getElem.1 hord m j hm' hj hm.1 (by rw [hxj]; exact ht)

/-- **The CA and SO hazard rule.**  In every run: a lane that computes with CA, or
copies SO into a CR field, dispatches only while no older instruction in flight
writes the bit; the copy it takes is, when it retires, the bit of XER after all the
instructions before it; and SO once set stays set on every edge on which no
instruction that writes XER itself retires. -/
theorem xer_hazard (cfg : Config) (r : Run (machine cfg)) (n : ℕ)
    (h : r.Obeys (HazardLegal cfg) n) :
    (∀ b, ∀ k < n, Waits b cfg (r.state k) (r.input k)) ∧
      (∀ b : XerBit, ∀ k < n, ∀ j x, (retiring cfg (r.state k) (r.input k))[j]? = some x →
        b.uses x.2.uop = true → b.held x.2 = (xerBefore r k j).getLsbD b.index) ∧
      (∀ k < n, (r.state k).flags.xer.getLsbD 31 = true →
        (∀ x ∈ retiring cfg (r.state k) (r.input k), x.2.uop.explicitXer = false) →
        (r.state (k + 1)).flags.xer.getLsbD 31 = true) := by
  refine ⟨?_, ?_, ?_⟩
  · intro b k hk
    have hI := hazardInv_run (h.mono hk.le)
    have hi := h k hk
    exact ⟨fun hd hu => clear_lane0 hI hi.1 hd (takes_of_uses hu),
      fun hd hu => clear_lane1 hI hi.1 hd (takes_of_uses hu)⟩
  · intro b k hk j x hx hu
    exact held_eq_xerBefore h hk hx (takes_of_uses hu)
  · intro k hk hso hexp
    exact so_step (hazardInv_run (h.mono hk.le)) (h k hk) hexp hso

end Runs

/-! ## An overflow and a compare -/

/-- `addo.` overflows and retires; a `cmpwi` then copies the SO it has set. -/
def overflowInputs : ℕ → Input
  | 0 => { want0 := true, lane0 := { insn := 0x7c632615#32 } }
  | 1 => { cq := { resultValid := true
                   result := { (default : ResultPacket) with
                     producer := ⟨0, 1⟩, ov := true, so := true } } }
  | 2 => { cq := { retireReady := true } }
  | 3 => { want0 := true, lane0 := { insn := 0x2c030000#32 } }
  | 4 => { cq := { resultValid := true
                   result := { (default : ResultPacket) with producer := ⟨1, 1⟩, cr0 := 5 } } }
  | _ => { cq := { retireReady := true } }

/-- The run of these inputs from reset. -/
def overflowRun : Run (machine fullConfig) where
  start := System.reset
  initial := initial_reset
  input := overflowInputs

theorem overflowRun_obeys : overflowRun.Obeys (HazardLegal fullConfig) 6 := by
  have hlane : ∀ k < 6, (overflowInputs k).lane0.Legal fullConfig.decode ∧
      (overflowInputs k).lane1.Legal fullConfig.decode := by
    intro k hk
    interval_cases k <;>
      exact ⟨⟨by decide, by decide, by decide, by decide, by decide⟩,
        ⟨by decide, by decide, by decide, by decide, by decide⟩⟩
  intro k hk
  refine ⟨⟨(hlane k hk).1, (hlane k hk).2, ?_, ?_, ⟨nofun, nofun, nofun⟩⟩, ?_⟩
  · interval_cases k <;> rfl
  · interval_cases k <;> exact ⟨rfl, by decide, by decide, nofun⟩
  · interval_cases k <;> exact ⟨by decide, by decide, by decide⟩

/-- The compare takes the SO the overflow has set, and retires under it. -/
theorem xer_hazard_overflowRun :
    (retiring fullConfig (overflowRun.state 5) (overflowRun.input 5)).map
        (fun x => XerBit.so.held x.2) = [true] ∧
      (∀ b, ∀ k < 6, Waits b fullConfig (overflowRun.state k) (overflowRun.input k)) ∧
      (∀ b : XerBit, ∀ k < 6, ∀ j x,
        (retiring fullConfig (overflowRun.state k) (overflowRun.input k))[j]? = some x →
        b.uses x.2.uop = true →
        b.held x.2 = (xerBefore overflowRun k j).getLsbD b.index) ∧
      (∀ k < 6, (overflowRun.state k).flags.xer.getLsbD 31 = true →
        (∀ x ∈ retiring fullConfig (overflowRun.state k) (overflowRun.input k),
          x.2.uop.explicitXer = false) →
        (overflowRun.state (k + 1)).flags.xer.getLsbD 31 = true) :=
  ⟨by decide, xer_hazard fullConfig overflowRun 6 overflowRun_obeys⟩

end Flags
end SloPPC603
