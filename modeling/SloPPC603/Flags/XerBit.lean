import SloPPC603.Flags.Commit

/-!
# CA and SO

XER is not renamed.  Of its bits two are read ahead of retirement: CA by the
extended arithmetic forms, SO by whatever records into a CR field.  The rule is
the same for both, so `XerBit` names the bit and the rest takes it as a parameter.

* `XerBit.writes`, `XerBit.reads`, `XerBit.uses`, `XerBit.held` — who writes the
  bit, whom dispatch holds back for it, who takes its value, and the copy it took.
* `commitXer_bit` — a packet that does not write the bit leaves it.
* `clear_of_dispatch`, `clear_of_dispatch1` — what a lane that takes the bit has
  waited for.
-/

namespace SloPPC603
namespace Flags

open Completion (Entry entries)

/-- A bit of XER that operations take ahead of retirement. -/
inductive XerBit
  | ca | so
  deriving DecidableEq, Repr

/-! ## Reading and writing a bit -/

/-- `mcrxr`, `mfspr` of XER and `stwcx.`, which take XER flags from the special
unit's copy and dispatch only into an empty queue. -/
def Uop.xerSerial (u : Uop) : Bool :=
  u.specialOp = .mcrxr || (u.specialOp = .mfspr && u.spr = 1) ||
    (u.specialOp = .store && u.memConditional)

namespace XerBit

/-- The bit's place in XER: `XER_CA_BIT`, `XER_SO_BIT`. -/
def index : XerBit → ℕ
  | .ca => 29
  | .so => 31

/-- A packet writes the bit. -/
def writes (b : XerBit) (p : RetirePacket) : Bool :=
  p.writeXer || match b with
    | .ca => p.writeCa
    | .so => p.writeOvSo

/-- An operation becomes the bit's pending writer. -/
def claims : XerBit → Uop → Bool
  | .ca => Uop.writesCa
  | .so => Uop.writesSo

/-- The decoder's `read_ca` or `read_so`. -/
def reads : XerBit → Uop → Bool
  | .ca => Uop.readCa
  | .so => Uop.readSo

/-- An operation computes with the bit: an add whose carry is CA, an integer form
that copies SO into the CR field it records, and the serial forms. -/
def uses (b : XerBit) (u : Uop) : Bool :=
  !u.illegal && (u.xerSerial || match b with
    | .ca => u.carryIn = .ca
    | .so => u.specialOp = .none && u.writeCrField)

/-- Dispatch captures the bit for the operation or the operation computes with
it. -/
def takes (b : XerBit) (u : Uop) : Bool := b.reads u || b.uses u

/-- The value of the bit that an operation took: a station holds `ca_in` or
`so_in`, the special unit its copy of the three flags. -/
def held (b : XerBit) (o : Operand) : Bool :=
  match b with
  | .ca => if o.uop.specialOp = .none then o.caIn else o.xerFlags.getLsbD 0
  | .so => if o.uop.specialOp = .none then o.soIn else o.xerFlags.getLsbD 2

/-- `ca_pending_q`, `so_pending_q`. -/
def pending : XerBit → System → Bool
  | .ca => System.caPending
  | .so => System.soPending

/-- `ca_writer_q`, `so_writer_q`. -/
def writer : XerBit → System → CompletionTag
  | .ca => System.caWriter
  | .so => System.soWriter

end XerBit

variable {cfg : Config} {s : System} {i : Input}

/-! ## Packets -/

section Packets

/-- Who writes the bit is decided by a packet's controls. -/
theorem writes_of_controls (b : XerBit) {p q : RetirePacket} (h : p.controls = q.controls) :
    b.writes p = b.writes q := by
  have hread : ∀ x : RetirePacket, b.writes x = b.writes x.controls := fun x => by cases b <;> rfl
  rw [hread p, h, ← hread q]

/-- **A packet that does not write the bit leaves it.** -/
theorem commitXer_bit {b : XerBit} {p : RetirePacket} (h : b.writes p = false)
    (xer : BitVec 32) : (commitXer p xer).getLsbD b.index = xer.getLsbD b.index := by
  have hmask : (xerMask p).getLsbD b.index = false := by
    cases b with
    | ca =>
      simp only [XerBit.writes, Bool.or_eq_false_iff] at h
      rw [xerMask, h.1, h.2]
      cases p.writeOvSo <;> rfl
    | so =>
      simp only [XerBit.writes, Bool.or_eq_false_iff] at h
      rw [xerMask, h.1, h.2]
      cases p.writeCa <;> rfl
  have hlt : b.index < 32 := by cases b <;> decide
  rw [commitXer, BitVec.getLsbD_or, BitVec.getLsbD_and, BitVec.getLsbD_and, BitVec.getLsbD_not,
    hmask]
  simp [hlt]

/-- So do packets none of which writes it. -/
theorem foldl_commitXer_bit {b : XerBit} {l : List RetirePacket}
    (h : ∀ p ∈ l, b.writes p = false) (xer : BitVec 32) :
    (l.foldl (fun xer p => commitXer p xer) xer).getLsbD b.index = xer.getLsbD b.index := by
  induction l generalizing xer with
  | nil => rfl
  | cons p l ih =>
    rw [List.foldl_cons, ih fun q hq => h q (List.mem_cons_of_mem p hq),
      commitXer_bit (h p List.mem_cons_self)]

/-- A finish makes no writer of an entry. -/
theorem writes_settle {b : XerBit} {e : Entry} (h : b.writes e.packet = false) :
    b.writes (Completion.settle cfg.cq s.cq (ports cfg s i) e).packet = false := by
  simp only [Completion.settle, Completion.finishedPacket, Completion.finishInto]
  split_ifs
  · cases b <;> rfl
  · rw [← h]
    exact writes_of_controls b (Completion.controls_mergeFinish _ _)
  · rw [← h]
    exact writes_of_controls b (Completion.controls_mergeFinish _ _)
  · cases b <;> rfl
  · rw [← h]
    exact writes_of_controls b (Completion.controls_mergeFinish _ _)
  · exact h

end Packets

/-! ## Lanes -/

section Lanes

variable {dec : DecodeConfig} {l : Lane} {u : Uop} {insn : BitVec 32}

/-- The serial forms are outside every class that may overtake the drain. -/
theorem Uop.xerSerial_spec (h : u.xerSerial = true) : u.specialOp ≠ .none ∧
    u.specialOp ≠ .fpu ∧ u.specialOp.branch = false ∧ u.plain insn = false := by
  simp only [Uop.xerSerial, Bool.or_eq_true, Bool.and_eq_true, decide_eq_true_eq] at h
  rcases h with (hop | ⟨hop, hspr⟩) | ⟨hop, hcond⟩
  · simp [hop, SpecialOp.branch, Uop.plain]
  · simp [hop, hspr, SpecialOp.branch, Uop.plain]
  · simp [hop, hcond, SpecialOp.branch, Uop.plain]

/-- A plain lane dispatches no serial form. -/
theorem Lane.Legal.xerSerial_of_plain (h : l.Legal dec) (hp : l.plain = true) :
    (l.uop dec).xerSerial = false := by
  have hplain := h.plain hp
  unfold Lane.uop
  split
  · next d _ => cases d <;> rfl
  · unfold Uop.align
    split_ifs with hal
    · simp [Uop.xerSerial]
    · by_contra hserial
      rw [Bool.not_eq_false] at hserial
      have hno := (@Uop.xerSerial_spec _ l.insn hserial).2.2.2
      rw [hplain] at hno
      cases hno

/-- An operation that computes with a bit reads it or is serial. -/
theorem XerBit.reads_of_uses {b : XerBit} (hd : Disciplined insn u) (h : b.uses u = true) :
    b.reads u = true ∨ u.xerSerial = true := by
  simp only [XerBit.uses, Bool.and_eq_true, Bool.or_eq_true] at h
  obtain ⟨-, hserial | huse⟩ := h
  · exact Or.inr hserial
  left
  cases b with
  | ca => exact (hd.carry (by simpa using huse)).2
  | so =>
    simp only [Bool.and_eq_true, decide_eq_true_eq] at huse
    exact (hd.integer huse.1).2 (Or.inl huse.2)

/-- An integer operation that takes a bit reads it. -/
theorem XerBit.reads_of_takes {b : XerBit} (hd : Disciplined insn u)
    (hop : u.specialOp = .none) (h : b.takes u = true) : b.reads u = true := by
  simp only [XerBit.takes, Bool.or_eq_true] at h
  rcases h with hr | hu
  · exact hr
  · exact (XerBit.reads_of_uses hd hu).resolve_right
      fun hs => (@Uop.xerSerial_spec _ insn hs).1 hop

/-- A flag-free operation reads neither bit. -/
theorem XerBit.reads_of_flagFree {b : XerBit} (h : u.flagFree = true) : b.reads u = false := by
  simp only [Uop.flagFree, Bool.not_eq_true', Bool.or_eq_false_iff] at h
  cases b
  · exact h.1.1.1.1.1.1.1.2
  · exact h.1.1.1.1.1.1.2

/-- Nor does it claim one. -/
theorem XerBit.claims_of_flagFree {b : XerBit} (h : u.flagFree = true) : b.claims u = false := by
  obtain ⟨hxer, hca, hso, -⟩ := Uop.flagFree_writes h
  cases b
  · simp [XerBit.claims, Uop.writesCa, hxer, hca]
  · simp [XerBit.claims, Uop.writesSo, hxer, hso]

/-- An operation that takes a bit without being serial is flagged. -/
theorem Uop.flagged_of_reads {b : XerBit} (h : b.reads u = true) : u.flagged = true := by
  cases b <;> simp only [XerBit.reads] at h <;> simp [Uop.flagged, h]

/-- An FP form reads and writes neither bit. -/
theorem XerBit.reads_of_fpu {b : XerBit} (hd : Disciplined insn u) (hop : u.specialOp = .fpu) :
    b.reads u = false ∧ b.claims u = false := by
  obtain ⟨hca, hso, hxer, hwca, hwso⟩ := hd.fpu hop
  cases b
  · simp [XerBit.reads, XerBit.claims, Uop.writesCa, hca, hxer, hwca]
  · simp [XerBit.reads, XerBit.claims, Uop.writesSo, hso, hxer, hwso]

end Lanes

/-! ## What a lane has waited for -/

section Dispatch

variable {b : XerBit}

/-- Lane 0 takes a bit with no writer pending, or into an empty queue. -/
theorem clear_of_dispatch (h : Legal cfg s i) (hd : dispatch cfg s i = true)
    (ht : b.takes (uop0 cfg i) = true) : b.pending s = false ∨ cqEmpty s = true := by
  have hdis : Disciplined i.lane0.insn (uop0 cfg i) := i.lane0.uop_disciplined cfg.decode
  simp only [dispatch, Bool.and_eq_true] at hd
  obtain ⟨-, hclass⟩ := hd
  by_cases hr : b.reads (uop0 cfg i) = true
  · left
    have hlegal : (uop0 cfg i).illegal = false := by
      by_contra hill
      rw [Bool.not_eq_false] at hill
      rw [XerBit.reads_of_flagFree (hdis.illegal hill)] at hr
      cases hr
    have hready : flagsReady cfg s i = true := by
      simp only [hlegal, Bool.or_eq_true, Bool.and_eq_true] at hclass
      rcases hclass with ((hbad | ⟨-, hf⟩) | ⟨-, hf⟩) | ⟨-, hf⟩
      · cases hbad
      all_goals exact hf
    simp only [flagsReady, Bool.and_eq_true] at hready
    have hxer := hready.1.2
    cases b with
    | ca =>
      simp only [XerBit.reads] at hr
      simp only [xerReady0, hr, Bool.true_and, Bool.and_eq_true, Bool.not_eq_true'] at hxer
      exact hxer.1
    | so =>
      simp only [XerBit.reads] at hr
      simp only [xerReady0, hr, Bool.true_and, Bool.and_eq_true, Bool.not_eq_true'] at hxer
      exact hxer.2
  · right
    have huse : b.uses (uop0 cfg i) = true := by
      simp only [XerBit.takes, Bool.or_eq_true] at ht
      exact ht.resolve_left hr
    have hserial := (XerBit.reads_of_uses hdis huse).resolve_left hr
    obtain ⟨hnone, hfpu, hbr, -⟩ := @Uop.xerSerial_spec _ i.lane0.insn hserial
    have hlegal : (uop0 cfg i).illegal = false := by
      simp only [XerBit.uses, Bool.and_eq_true, Bool.not_eq_true'] at huse
      exact huse.1
    have hbranch : i.lane0.branch = false := by
      by_contra hb
      have hclash : (uop0 cfg i).specialOp.branch = true := h.lane0.branch (by simpa using hb)
      rw [hbr] at hclash
      cases hclash
    have hfp : i.lane0.fp = false := by
      by_contra hf
      exact hfpu (h.lane0.fp (by simpa using hf))
    have hplain : i.lane0.plain = false := by
      by_contra hp
      have hclash : (uop0 cfg i).xerSerial = false :=
        h.lane0.xerSerial_of_plain (by simpa using hp)
      rw [hserial] at hclash
      cases hclash
    by_contra hfull
    rw [Bool.not_eq_true] at hfull
    simp [hlegal, hfp, normalUop, hbranch, hnone, specialDrained, hplain, hfull] at hclass

/-- Lane 1 takes a bit with no writer pending and none in lane 0. -/
theorem clear_of_dispatch1 (h : Legal cfg s i) (hd : dispatch1 cfg s i = true)
    (ht : b.takes (uop1 cfg i) = true) :
    b.pending s = false ∧ (dispatchNeedsFlags cfg i && b.claims (uop0 cfg i)) = false := by
  have hdis : Disciplined i.lane1.insn (uop1 cfg i) := i.lane1.uop_disciplined cfg.decode
  simp only [dispatch1, Bool.and_eq_true, Bool.or_eq_true] at hd
  obtain ⟨⟨⟨⟨-, hclass⟩, -⟩, -⟩, hxer⟩ := hd
  have hr : b.reads (uop1 cfg i) = true := by
    by_contra hr
    have huse : b.uses (uop1 cfg i) = true := by
      simp only [XerBit.takes, Bool.or_eq_true] at ht
      exact ht.resolve_left hr
    have hserial := (XerBit.reads_of_uses hdis huse).resolve_left hr
    obtain ⟨hnone, hfpu, hbr, -⟩ := @Uop.xerSerial_spec _ i.lane1.insn hserial
    rcases hclass with ((hiu | hp) | hf) | hb
    · simp only [d1Iu, Bool.and_eq_true, decide_eq_true_eq] at hiu
      exact hnone hiu.2
    · have hclash : (uop1 cfg i).xerSerial = false := h.lane1.xerSerial_of_plain hp
      rw [hserial] at hclash
      cases hclash
    · exact hfpu (h.lane1.fp hf)
    · have hclash : (uop1 cfg i).specialOp.branch = true := h.lane1.branch hb
      rw [hbr] at hclash
      cases hclash
  have hfp : i.lane1.fp = false := by
    by_contra hf
    rw [(XerBit.reads_of_fpu hdis (h.lane1.fp (by simpa using hf))).1] at hr
    cases hr
  have hbranch : i.lane1.branch = false := by
    by_contra hb
    have hfree : (uop1 cfg i).flagFree = true := h.lane1.branch_flagFree (by simpa using hb)
    rw [XerBit.reads_of_flagFree hfree] at hr
    cases hr
  have hneeds : d1NeedsFlags cfg i = true := by
    simp [d1NeedsFlags, hfp, hbranch, Uop.flagged_of_reads hr]
  have hready : xerReady1 cfg s i = true := by simpa [hneeds] using hxer
  simp only [xerReady1, Bool.and_eq_true, Bool.not_eq_true'] at hready
  cases b with
  | ca =>
    have hca := hready.1
    simp only [XerBit.reads] at hr
    rw [hr, Bool.true_and, Bool.or_eq_false_iff] at hca
    exact hca
  | so =>
    have hso := hready.2
    simp only [XerBit.reads] at hr
    rw [hr, Bool.true_and, Bool.or_eq_false_iff] at hso
    exact hso

/-- An entry lane 0 allocates writes a bit only if the lane claims it. -/
theorem writes_allocation0 (h : Legal cfg s i)
    (hw : b.writes (Completion.normalize (allocation0 cfg i)) = true) :
    (dispatchNeedsFlags cfg i && b.claims (uop0 cfg i)) = true := by
  have hdis : Disciplined i.lane0.insn (uop0 cfg i) := i.lane0.uop_disciplined cfg.decode
  have hsplit : (uop0 cfg i).illegal = false ∧ b.claims (uop0 cfg i) = true := by
    cases b <;>
      simp only [XerBit.writes, XerBit.claims, Uop.writesCa, Uop.writesSo, Completion.normalize,
        allocation0, Lane.allocation, Bool.or_eq_true, Bool.and_eq_true,
        Bool.not_eq_true'] at hw ⊢ <;>
      tauto
  obtain ⟨hlegal, hcl⟩ := hsplit
  have hfp : i.lane0.fp = false := by
    by_contra hf
    rw [(XerBit.reads_of_fpu hdis (h.lane0.fp (by simpa using hf))).2] at hcl
    cases hcl
  have hflag : (uop0 cfg i).flagged = true := by
    cases b <;>
      simp only [XerBit.claims, Uop.writesCa, Uop.writesSo, Bool.or_eq_true] at hcl <;>
      rcases hcl with hcl | hcl <;> simp [Uop.flagged, hcl]
  simp [dispatchNeedsFlags, hlegal, hfp, hflag, hcl]

/-- So does one lane 1 allocates. -/
theorem writes_allocation1 (h : Legal cfg s i)
    (hw : b.writes (Completion.normalize (allocation1 cfg i)) = true) :
    (d1NeedsFlags cfg i && b.claims (uop1 cfg i)) = true := by
  have hdis : Disciplined i.lane1.insn (uop1 cfg i) := i.lane1.uop_disciplined cfg.decode
  have hcl : b.claims (uop1 cfg i) = true := by
    cases b <;>
      simp only [XerBit.writes, XerBit.claims, Uop.writesCa, Uop.writesSo, Completion.normalize,
        allocation1, Lane.allocation, Bool.or_eq_true, Bool.and_eq_true,
        Bool.not_eq_true'] at hw ⊢ <;>
      tauto
  have hfp : i.lane1.fp = false := by
    by_contra hf
    rw [(XerBit.reads_of_fpu hdis (h.lane1.fp (by simpa using hf))).2] at hcl
    cases hcl
  have hbranch : i.lane1.branch = false := by
    by_contra hb
    have hfree : (uop1 cfg i).flagFree = true := h.lane1.branch_flagFree (by simpa using hb)
    rw [XerBit.claims_of_flagFree hfree] at hcl
    cases hcl
  have hflag : (uop1 cfg i).flagged = true := by
    cases b <;>
      simp only [XerBit.claims, Uop.writesCa, Uop.writesSo, Bool.or_eq_true] at hcl <;>
      rcases hcl with hcl | hcl <;> simp [Uop.flagged, hcl]
  simp [d1NeedsFlags, hfp, hbranch, hflag, hcl]

end Dispatch

end Flags
end SloPPC603
