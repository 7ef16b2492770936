import Mathlib.Algebra.BigOperators.Group.List.Basic
import Mathlib.Tactic.Ring
import SloPPC603.Clocked.Machine
import SloPPC603.Decode.Uop

/-!
# Cracking multiples and strings

The registers and clock edge of `ppc_lsu_sequence.sv`, which cracks `lmw`, `stmw` and
the string forms at dispatch into one word micro-op for each register.

* `step` — the clock edge.
* `plan`, `Covers`, `plan_covers` — the micro-ops of an instruction, and that they move
  its bytes.
* `SequenceInv`, `sequenceInv_step` — what is captured of an instruction in progress.
* `cracking_covers` — the micro-ops emitted are those of the plan, in order.
-/

namespace SloPPC603
namespace Sequence

open Clocked
open Decode (Uop MemSeq)

/-! ## The sequencer -/

/-- The inputs of one cycle, with the values of the source registers from which the
core forms `ea_i`. -/
structure Input where
  rstN : Bool := true
  clear : Bool := false
  uop : Uop := {}
  dispatch : Bool := false
  srcA : BitVec 32 := 0
  srcB : BitVec 32 := 0
  xerCount : BitVec 7 := 0

/-- The registers. -/
structure State where
  active : Bool
  reg : BitVec 5
  left : BitVec 8
  nextEa : BitVec 32

section Signals

variable (enable : Bool) (s : State) (i : Input)

/-- `cracked`. -/
def cracked : Bool := enable && !i.uop.illegal && i.uop.memSeq ≠ .none

/-- `total`. -/
def total : BitVec 8 :=
  match i.uop.memSeq with
  | .multiple => (32 - i.uop.dst.setWidth 6 : BitVec 6) ++ (0 : BitVec 2)
  | .stringImm => if i.uop.srcB = 0 then 32 else i.uop.srcB.setWidth 8
  | _ => i.xerCount.setWidth 8

/-- `remaining`. -/
def remaining : BitVec 8 := if s.active then s.left else total i

/-- `reg_now`. -/
def regNow : BitVec 5 := if s.active then s.reg else i.uop.dst

/-- `last_o`. -/
def lastOut : Bool := !cracked enable i || remaining s i ≤ 4

/-- `uop_o`. -/
def uopOut : Uop :=
  if cracked enable i then
    { i.uop with
      memUpdate := false
      dst := regNow s i
      srcC := regNow s i
      memBytes := if remaining s i < 4 then (remaining s i).setWidth 2 else 0
      seqPartial := !lastOut enable s i
      memSkip := remaining s i = 0 || i.uop.memSkip
      gprWrite := remaining s i ≠ 0 && i.uop.gprWrite
      zeroA := s.active || i.uop.zeroA
      useImm := s.active || i.uop.useImm
      imm := if s.active then s.nextEa else i.uop.imm }
  else i.uop

/-- `ea_i`, which the core forms from the micro-op's operands. -/
def dispatchEa : BitVec 32 := (uopOut enable s i).effectiveAddress i.srcA i.srcB

/-- A micro-op of a cracked instruction dispatches. -/
def emits : Bool := i.dispatch && cracked enable i

/-- The clock edge; only `active_q` has a reset. -/
def step : State where
  active :=
    if !i.rstN || i.clear then false
    else if emits enable i then !lastOut enable s i else s.active
  reg := if emits enable i then regNow s i + 1 else s.reg
  left := if emits enable i then remaining s i - 4 else s.left
  nextEa :=
    if emits enable i then (if s.active then s.nextEa else dispatchEa enable s i) + 4
    else s.nextEa

end Signals

/-- The sequencer out of a reset edge. -/
def machine (enable : Bool) : Machine State Input where
  Initial s := s.active = false
  step := step enable

/-! ## The micro-ops of an instruction -/

/-- The bytes a multiple or string moves. -/
def instructionBytes (u : Uop) (xerCount : BitVec 7) : ℕ :=
  match u.memSeq with
  | .multiple => 4 * (32 - u.dst.toNat)
  | .stringImm => if u.srcB = 0 then 32 else u.srcB.toNat
  | _ => xerCount.toNat

/-- A micro-op as it dispatches, with its effective address. -/
structure MicroOp where
  uop : Uop
  ea : BitVec 32

/-- The bytes a micro-op moves. -/
def MicroOp.bytes (m : MicroOp) : ℕ :=
  if m.uop.memSkip then 0 else if m.uop.memBytes = 0 then 4 else m.uop.memBytes.toNat

/-- An instruction being cracked and the micro-ops it has sent. -/
structure Cracking where
  uop : Uop
  ea : BitVec 32
  bytes : ℕ
  sent : List MicroOp

/-- One micro-op for each word or part of one, and one for no byte at all. -/
def words (bytes : ℕ) : ℕ := max 1 ((bytes + 3) / 4)

/-- The `k`th micro-op of an instruction. -/
def Cracking.microOp (q : Cracking) (k : ℕ) : MicroOp where
  ea := q.ea + BitVec.ofNat 32 (4 * k)
  uop :=
    { q.uop with
      memUpdate := false
      dst := q.uop.dst + BitVec.ofNat 5 k
      srcC := q.uop.dst + BitVec.ofNat 5 k
      memBytes := if q.bytes - 4 * k < 4 then BitVec.ofNat 2 (q.bytes - 4 * k) else 0
      seqPartial := k + 1 < words q.bytes
      memSkip := q.bytes = 0 || q.uop.memSkip
      gprWrite := q.bytes ≠ 0 && q.uop.gprWrite
      zeroA := 0 < k || q.uop.zeroA
      useImm := 0 < k || q.uop.useImm
      imm := if 0 < k then q.ea + BitVec.ofNat 32 (4 * k) else q.uop.imm }

/-- The micro-ops of an instruction. -/
def Cracking.plan (q : Cracking) : List MicroOp := (List.range (words q.bytes)).map q.microOp

/-- The instruction at the queue's head, with this cycle's operands and byte count. -/
def started (i : Input) : Cracking :=
  ⟨i.uop, i.uop.effectiveAddress i.srcA i.srcB, instructionBytes i.uop i.xerCount, []⟩

/-- The instruction whose micro-op this cycle dispatches. -/
def current (q : Cracking) (s : State) (i : Input) : Cracking := if s.active then q else started i

@[simp] theorem started_sent (i : Input) : (started i).sent = [] := rfl

/-- The record of the instruction in progress. -/
def record (enable : Bool) (q : Cracking) (s : State) (i : Input) : Cracking :=
  if emits enable i then
    { current q s i with
      sent := (current q s i).sent ++ [⟨uopOut enable s i, dispatchEa enable s i⟩] }
  else q

/-- The queue holds the instruction at its head until the last micro-op pops it. -/
def Held (s : State) (q : Cracking) (i : Input) : Prop :=
  s.active = true → i.dispatch = true → i.uop = q.uop

/-! ## The plan moves the instruction's bytes -/

/-- What the micro-ops `l` of an instruction are to be: consecutive words and registers,
its bytes in all and only the last word short, and the last alone not partial. -/
structure Covers (q : Cracking) (l : List MicroOp) : Prop where
  nonempty : l ≠ []
  ea : ∀ k (hk : k < l.length), l[k].ea = q.ea + BitVec.ofNat 32 (4 * k)
  dst : ∀ k (hk : k < l.length), l[k].uop.dst = q.uop.dst + BitVec.ofNat 5 k
  srcC : ∀ k (hk : k < l.length), l[k].uop.srcC = q.uop.dst + BitVec.ofNat 5 k
  partial_iff : ∀ k (hk : k < l.length), l[k].uop.seqPartial = true ↔ k + 1 ≠ l.length
  full : ∀ k (hk : k < l.length), k + 1 ≠ l.length → l[k].bytes = 4
  sum : (l.map MicroOp.bytes).sum = q.bytes
  none : q.bytes = 0 → ∃ m, l = [m] ∧ m.uop.memSkip = true ∧ m.uop.gprWrite = false
  some : q.bytes ≠ 0 → ∀ m ∈ l, m.uop.memSkip = false ∧ m.uop.gprWrite = q.uop.gprWrite

theorem words_pos (bytes : ℕ) : 0 < words bytes := by
  unfold words
  omega

@[simp] theorem plan_length (q : Cracking) : q.plan.length = words q.bytes := by
  simp [Cracking.plan]

theorem plan_getElem (q : Cracking) (k : ℕ) (hk : k < q.plan.length) :
    q.plan[k] = q.microOp k := by
  simp [Cracking.plan]

/-- The bytes of one micro-op. -/
theorem microOp_bytes {q : Cracking} (hskip : q.uop.memSkip = false) (k : ℕ)
    (hk : 4 * k < q.bytes ∨ k = 0) : (q.microOp k).bytes = min 4 (q.bytes - 4 * k) := by
  unfold MicroOp.bytes Cracking.microOp
  by_cases hzero : q.bytes = 0
  · simp [hzero]
  · simp only [hzero, decide_false, hskip, Bool.or_false, Bool.false_eq_true, if_false]
    by_cases hshort : q.bytes - 4 * k < 4
    · have hbits : (BitVec.ofNat 2 (q.bytes - 4 * k)).toNat = q.bytes - 4 * k := by
        rw [BitVec.toNat_ofNat]
        omega
      have hne : BitVec.ofNat 2 (q.bytes - 4 * k) ≠ 0 := by
        intro h
        rw [h] at hbits
        simp at hbits
        omega
      rw [if_pos hshort, if_neg hne, hbits]
      omega
    · rw [if_neg hshort, if_pos rfl]
      omega

/-- The first `k` words of the plan hold the first `4 * k` bytes. -/
theorem sum_range_bytes {q : Cracking} (hskip : q.uop.memSkip = false) (k : ℕ)
    (hk : k ≤ words q.bytes) :
    ((List.range k).map fun j => (q.microOp j).bytes).sum = min (4 * k) q.bytes := by
  induction k with
  | zero => simp
  | succ k ih =>
    have hlt : 4 * k < q.bytes ∨ k = 0 := by
      unfold words at hk
      omega
    rw [List.range_succ, List.map_append, List.sum_append, ih (by omega), List.map_singleton,
      List.sum_singleton, microOp_bytes hskip k hlt]
    omega

/-- **The plan covers exactly the bytes asked for.** -/
theorem plan_covers {q : Cracking} (hskip : q.uop.memSkip = false) : Covers q q.plan where
  nonempty := List.ne_nil_of_length_pos (by rw [plan_length]; exact words_pos _)
  ea k hk := by rw [plan_getElem]; rfl
  dst k hk := by rw [plan_getElem]; rfl
  srcC k hk := by rw [plan_getElem]; rfl
  partial_iff k hk := by
    rw [plan_length] at hk ⊢
    rw [plan_getElem]
    simp only [Cracking.microOp, decide_eq_true_eq]
    omega
  full k hk hlast := by
    rw [plan_length] at hk hlast
    have hlt : 4 * (k + 1) < q.bytes := by
      unfold words at hk hlast
      omega
    rw [plan_getElem, microOp_bytes hskip k (by omega)]
    omega
  sum := by
    have hsum := sum_range_bytes hskip (words q.bytes) le_rfl
    rw [Cracking.plan, List.map_map]
    refine hsum.trans ?_
    unfold words
    omega
  none hzero := by
    refine ⟨q.microOp 0, ?_, ?_, ?_⟩
    · simp [Cracking.plan, words, hzero]
    · simp [Cracking.microOp, hzero]
    · simp [Cracking.microOp, hzero]
  some hne m hm := by
    obtain ⟨k, -, rfl⟩ := List.mem_map.1 hm
    simp [Cracking.microOp, hne, hskip]

/-! ## The sequencer sends the plan -/

/-- What the registers hold of the instruction in progress. -/
structure InProgress (s : State) (q : Cracking) : Prop where
  some : 0 < q.sent.length
  more : q.sent.length < words q.bytes
  sent : q.sent = q.plan.take q.sent.length
  reg : s.reg = q.uop.dst + BitVec.ofNat 5 q.sent.length
  left : s.left.toNat = q.bytes - 4 * q.sent.length
  nextEa : s.nextEa = q.ea + BitVec.ofNat 32 (4 * q.sent.length)

/-- The registers against the record. -/
def SequenceInv (s : State) (q : Cracking) : Prop := s.active = true → InProgress s q

theorem total_toNat (i : Input) : (total i).toNat = instructionBytes i.uop i.xerCount := by
  unfold total instructionBytes
  cases i.uop.memSeq with
  | multiple =>
    have hdst := i.uop.dst.isLt
    rw [BitVec.toNat_append]
    simp [BitVec.toNat_sub]
    omega
  | stringImm =>
    have hsrc := i.uop.srcB.isLt
    show (if i.uop.srcB = 0 then (32 : BitVec 8) else _).toNat = _
    show _ = if i.uop.srcB = 0 then 32 else i.uop.srcB.toNat
    split_ifs
    · rfl
    · rw [BitVec.toNat_setWidth]
      omega
  | stringIndexed | none =>
    have hxer := i.xerCount.isLt
    show (i.xerCount.setWidth 8).toNat = i.xerCount.toNat
    rw [BitVec.toNat_setWidth]
    omega

variable {enable : Bool} {s : State} {q : Cracking} {i : Input}

theorem remaining_toNat (h : SequenceInv s q) :
    (remaining s i).toNat = (current q s i).bytes - 4 * (current q s i).sent.length := by
  unfold remaining current
  by_cases hact : s.active = true
  · rw [if_pos hact, if_pos hact]
    exact (h hact).left
  · rw [if_neg hact, if_neg hact]
    exact total_toNat i

theorem current_length_lt (h : SequenceInv s q) :
    (current q s i).sent.length < words (current q s i).bytes := by
  unfold current
  by_cases hact : s.active = true
  · rw [if_pos hact]
    exact (h hact).more
  · rw [if_neg hact]
    exact words_pos _

/-- `last_o` marks the last micro-op of the plan. -/
theorem lastOut_iff (h : SequenceInv s q) (hcracked : cracked enable i = true) :
    lastOut enable s i = true ↔
      (current q s i).sent.length + 1 = words (current q s i).bytes := by
  have hleft := remaining_toNat (i := i) h
  have hlt := current_length_lt (i := i) h
  have hle : remaining s i ≤ 4 ↔ (remaining s i).toNat ≤ 4 := Iff.rfl
  simp only [lastOut, hcracked, Bool.not_true, Bool.false_or, decide_eq_true_eq, hle, hleft]
  unfold words at hlt ⊢
  omega

theorem current_uop (hheld : Held s q i) (hemit : emits enable i = true) :
    (current q s i).uop = i.uop := by
  unfold current
  split_ifs with hact
  · exact (hheld hact (Bool.and_eq_true_iff.1 hemit).1).symm
  · rfl

/-- An instruction is in progress once it has sent a micro-op. -/
theorem active_eq (h : SequenceInv s q) : s.active = decide (0 < (current q s i).sent.length) := by
  unfold current
  by_cases hact : s.active = true
  · simp [hact, (h hact).some]
  · simp [hact]

theorem regNow_eq (h : SequenceInv s q) (hheld : Held s q i) (hemit : emits enable i = true) :
    regNow s i =
      (current q s i).uop.dst + BitVec.ofNat 5 (current q s i).sent.length := by
  rw [current_uop hheld hemit, regNow]
  by_cases hact : s.active = true
  · rw [if_pos hact, (h hact).reg, current, if_pos hact,
      hheld hact (Bool.and_eq_true_iff.1 hemit).1]
  · rw [if_neg hact, current, if_neg hact]
    simp

/-- The micro-op an edge sends is the next one of the plan. -/
theorem uopOut_eq (h : SequenceInv s q) (hheld : Held s q i) (hemit : emits enable i = true) :
    uopOut enable s i = ((current q s i).microOp (current q s i).sent.length).uop := by
  obtain ⟨-, hcracked⟩ := Bool.and_eq_true_iff.1 hemit
  have hleft := remaining_toNat (i := i) h
  have hlt := current_length_lt (i := i) h
  have hzero : remaining s i = 0 ↔ (current q s i).bytes = 0 := by
    rw [BitVec.toNat_eq, hleft]
    unfold words at hlt
    simp
    omega
  have hshort : remaining s i < 4 ↔
      (current q s i).bytes - 4 * (current q s i).sent.length < 4 := by
    rw [BitVec.lt_def, hleft]
    rfl
  have hbits : (remaining s i).setWidth 2 =
      BitVec.ofNat 2 ((current q s i).bytes - 4 * (current q s i).sent.length) := by
    rw [← hleft, BitVec.ofNat_toNat]
  have hpart : (!lastOut enable s i) = decide
      ((current q s i).sent.length + 1 < words (current q s i).bytes) := by
    rw [Bool.not_eq_eq_eq_not, Bool.eq_iff_iff, lastOut_iff h hcracked]
    simp
    omega
  have himm : (if s.active then s.nextEa else i.uop.imm) =
      if 0 < (current q s i).sent.length then
        (current q s i).ea + BitVec.ofNat 32 (4 * (current q s i).sent.length)
      else i.uop.imm := by
    by_cases hact : s.active = true
    · have hk := active_eq (i := i) h
      rw [hact, eq_comm, decide_eq_true_iff] at hk
      rw [if_pos hact, if_pos hk, (h hact).nextEa, current, if_pos hact]
    · have hk := active_eq (i := i) h
      rw [Bool.eq_false_iff.2 hact, eq_comm, decide_eq_false_iff_not] at hk
      rw [if_neg hact, if_neg hk]
  simp only [uopOut, hcracked, if_true, Cracking.microOp, regNow_eq h hheld hemit, ne_eq, hzero,
    hshort, hbits, hpart, himm, ← active_eq h, current_uop hheld hemit]

theorem dispatchEa_eq (h : SequenceInv s q) (hheld : Held s q i) (hemit : emits enable i = true) :
    dispatchEa enable s i = ((current q s i).microOp (current q s i).sent.length).ea := by
  rw [dispatchEa, uopOut_eq h hheld hemit]
  simp only [Uop.effectiveAddress, Cracking.microOp, ← active_eq h, current_uop hheld hemit]
  by_cases hact : s.active = true
  · have hk := active_eq (i := i) h
    rw [hact, eq_comm, decide_eq_true_iff] at hk
    simp [hact, hk]
  · simp [hact, current, started, Uop.effectiveAddress]

theorem sent_eq (h : SequenceInv s q) :
    (current q s i).sent = (current q s i).plan.take (current q s i).sent.length := by
  unfold current
  split_ifs with hact
  · exact (h hact).sent
  · rfl

/-- An edge that sends a micro-op takes the record one further into the plan. -/
theorem record_sent (h : SequenceInv s q) (hheld : Held s q i) (hemit : emits enable i = true) :
    (record enable q s i).sent =
      (current q s i).plan.take ((current q s i).sent.length + 1) := by
  have hlt : (current q s i).sent.length < (current q s i).plan.length := by
    rw [plan_length]
    exact current_length_lt h
  rw [List.take_succ_eq_append_getElem hlt, ← sent_eq h, plan_getElem, record, if_pos hemit]
  simp only [uopOut_eq h hheld hemit, dispatchEa_eq h hheld hemit]

/-- **One edge keeps what the registers hold of the instruction.** -/
theorem sequenceInv_step (h : SequenceInv s q) (hheld : Held s q i) :
    SequenceInv (step enable s i) (record enable q s i) := by
  intro hact'
  simp only [step] at hact'
  split_ifs at hact' with hclr hemit
  · -- the micro-op sent is not the last
    obtain ⟨-, hcracked⟩ := Bool.and_eq_true_iff.1 hemit
    have hlast : (current q s i).sent.length + 1 ≠ words (current q s i).bytes := by
      rw [Ne, ← lastOut_iff h hcracked, Bool.not_eq_true]
      simpa using hact'
    have hlt := current_length_lt (i := i) h
    have hsent := record_sent h hheld hemit
    have hrec : record enable q s i =
        { current q s i with sent := (record enable q s i).sent } := by
      rw [record, if_pos hemit]
    have hlen : (record enable q s i).sent.length = (current q s i).sent.length + 1 := by
      rw [record, if_pos hemit]
      simp
    have hleft := remaining_toNat (i := i) h
    have hmore : 4 < (current q s i).bytes - 4 * (current q s i).sent.length := by
      unfold words at hlt hlast
      omega
    refine ⟨by omega, ?_, ?_, ?_, ?_, ?_⟩
    · rw [hlen, hrec]
      show _ < words (current q s i).bytes
      omega
    · rw [hlen, hsent, hrec]
      rfl
    · have hreg : (step enable s i).reg = regNow s i + 1 := by simp [step, hemit]
      rw [hlen, hreg, regNow_eq h hheld hemit, hrec, BitVec.ofNat_add, BitVec.add_assoc]
      rfl
    · have hstep : (step enable s i).left = remaining s i - 4 := by simp [step, hemit]
      have hbytes : (record enable q s i).bytes = (current q s i).bytes := by rw [hrec]
      rw [hlen, hstep, hbytes, BitVec.toNat_sub_of_le, hleft]
      · show _ - 4 = _
        omega
      · rw [BitVec.le_def, hleft]
        show 4 ≤ _
        omega
    · have hstep : (step enable s i).nextEa =
          ((current q s i).microOp (current q s i).sent.length).ea + 4 := by
        rw [← dispatchEa_eq h hheld hemit]
        simp only [step, if_pos hemit]
        split_ifs with hact
        · rw [dispatchEa_eq h hheld hemit, (h hact).nextEa]
          simp [Cracking.microOp, current, hact]
        · rfl
      rw [hlen, hstep, hrec, Nat.mul_add, BitVec.ofNat_add, ← BitVec.add_assoc]
      rfl
  · -- nothing is sent
    rw [record, if_neg hemit]
    have hold := h hact'
    exact ⟨hold.some, hold.more, hold.sent, by simpa [step, hemit] using hold.reg,
      by simpa [step, hemit] using hold.left, by simpa [step, hemit] using hold.nextEa⟩

/-- The record of a run. -/
def cracking (enable : Bool) (r : Clocked.Run (machine enable)) (n : ℕ) : Cracking :=
  r.history ⟨{}, 0, 0, []⟩ (record enable) n

theorem sequenceInv_run {r : Clocked.Run (machine enable)} {n : ℕ}
    (h : r.ObeysRecord ⟨{}, 0, 0, []⟩ (record enable) Held n) :
    SequenceInv (r.state n) (cracking enable r n) := by
  refine Run.invariant_record (A := Held) (I := SequenceInv) ?_ ?_ h
  · intro s hstart hact
    exact nomatch (hact.symm.trans hstart)
  · intro s q i hinv hheld
    exact sequenceInv_step hinv hheld

/-- The micro-ops of one cycle. -/
def sentAt (enable : Bool) (r : Clocked.Run (machine enable)) (k : ℕ) : List MicroOp :=
  if emits enable (r.input k) then
    [⟨uopOut enable (r.state k) (r.input k), dispatchEa enable (r.state k) (r.input k)⟩]
  else []

/-- The micro-ops from cycle `m` on, before cycle `n`. -/
def emitted (enable : Bool) (r : Clocked.Run (machine enable)) (m n : ℕ) : List MicroOp :=
  (List.range' m (n - m)).flatMap (sentAt enable r)

theorem emitted_succ (r : Clocked.Run (machine enable)) {m n : ℕ} (h : m ≤ n) :
    emitted enable r m (n + 1) = emitted enable r m n ++ sentAt enable r n := by
  unfold emitted
  rw [Nat.succ_sub h, List.range'_concat, List.flatMap_append, List.flatMap_singleton]
  congr
  omega

@[simp] theorem emitted_self (r : Clocked.Run (machine enable)) (n : ℕ) :
    emitted enable r n n = [] := by
  simp [emitted]

/-- Cycle `m` sent the first micro-op of the instruction cycle `n` finds in progress. -/
structure Since (enable : Bool) (r : Clocked.Run (machine enable)) (m n : ℕ) : Prop where
  le : m ≤ n
  idle : (r.state m).active = false
  emits : emits enable (r.input m) = true
  active : ∀ k, m < k → k ≤ n → (r.state k).active = true

/-- The record is the instruction whose first micro-op was sent last. -/
theorem cracking_since (r : Clocked.Run (machine enable)) (n : ℕ)
    (hact : (r.state n).active = true) :
    ∃ m < n, Since enable r m n ∧
      cracking enable r n = { started (r.input m) with sent := emitted enable r m n } := by
  induction n with
  | zero => exact nomatch (hact.symm.trans r.initial)
  | succ n ih =>
    have hrec : cracking enable r (n + 1) =
        record enable (cracking enable r n) (r.state n) (r.input n) := rfl
    by_cases hemit : emits enable (r.input n) = true
    · by_cases hprev : (r.state n).active = true
      · obtain ⟨m, hmn, hm, heq⟩ := ih hprev
        refine ⟨m, by omega, ⟨by omega, hm.idle, hm.emits, ?_⟩, ?_⟩
        · intro k hk hkn
          rcases Nat.le_succ_iff.1 hkn with hle | rfl
          · exact hm.active k hk hle
          · exact hact
        · rw [hrec, record, if_pos hemit, current, if_pos hprev, heq, emitted_succ r hmn.le]
          simp [sentAt, hemit]
      · refine ⟨n, by omega, ⟨by omega, Bool.eq_false_iff.2 hprev, hemit, ?_⟩, ?_⟩
        · intro k hk hkn
          rwa [Nat.le_antisymm hkn hk]
        · rw [hrec, record, if_pos hemit, current, if_neg hprev, emitted_succ r le_rfl]
          simp [sentAt, hemit, started]
    · have hprev : (r.state n).active = true := by
        have hstep : (step enable (r.state n) (r.input n)).active = true := hact
        simp only [step, if_neg hemit] at hstep
        split_ifs at hstep
        exact hstep
      obtain ⟨m, hmn, hm, heq⟩ := ih hprev
      refine ⟨m, by omega, ⟨by omega, hm.idle, hm.emits, ?_⟩, ?_⟩
      · intro k hk hkn
        rcases Nat.le_succ_iff.1 hkn with hle | rfl
        · exact hm.active k hk hle
        · exact hact
      · rw [hrec, record, if_neg hemit, heq, emitted_succ r hmn.le]
        simp [sentAt, hemit]

theorem current_since (r : Clocked.Run (machine enable)) (n : ℕ)
    (hemit : emits enable (r.input n) = true) :
    ∃ m, Since enable r m n ∧
      current (cracking enable r n) (r.state n) (r.input n) =
        { started (r.input m) with sent := emitted enable r m n } := by
  by_cases hact : (r.state n).active = true
  · obtain ⟨m, -, hm, heq⟩ := cracking_since r n hact
    exact ⟨m, hm, by rw [current, if_pos hact, heq]⟩
  · refine ⟨n, ⟨le_rfl, Bool.eq_false_iff.2 hact, hemit, fun k hk hkn => ?_⟩, ?_⟩
    · exact absurd hkn (Nat.not_le.2 hk)
    · rw [current, if_neg hact, emitted_self]
      rfl

/-- **Cracking covers exactly the bytes asked for.**  The micro-ops of the instruction
that a cycle dispatches are a beginning of the plan its first cycle's operation, address and
byte count fix; `last_o` marks the last of them; and the plan's words and registers follow
each other and move the instruction's bytes. -/
theorem cracking_covers (enable : Bool) (r : Clocked.Run (machine enable)) (n : ℕ)
    (h : r.ObeysRecord ⟨{}, 0, 0, []⟩ (record enable) Held (n + 1))
    (hemit : emits enable (r.input n) = true) (hskip : (r.input n).uop.memSkip = false) :
    ∃ m, Since enable r m n ∧
      (∃ k < (started (r.input m)).plan.length,
        emitted enable r m (n + 1) = (started (r.input m)).plan.take (k + 1)) ∧
      (lastOut enable (r.state n) (r.input n) = true ↔
        emitted enable r m (n + 1) = (started (r.input m)).plan) ∧
      Covers (started (r.input m)) (started (r.input m)).plan := by
  obtain ⟨m, hm, hcur⟩ := current_since r n hemit
  have hinv := sequenceInv_run (h.mono (Nat.le_succ n))
  have hheld : Held (r.state n) (cracking enable r n) (r.input n) := h n (Nat.lt_succ_self n)
  obtain ⟨-, hcracked⟩ := Bool.and_eq_true_iff.1 hemit
  have huop : (started (r.input m)).uop = (r.input n).uop := by
    rw [← current_uop hheld hemit, hcur]
  have hlt := current_length_lt (i := r.input n) hinv
  have hlast := lastOut_iff hinv hcracked
  have hsent : emitted enable r m (n + 1) =
      (started (r.input m)).plan.take ((emitted enable r m n).length + 1) := by
    have hrec := record_sent hinv hheld hemit
    rw [record, if_pos hemit, hcur] at hrec
    rw [emitted_succ r hm.le, sentAt, if_pos hemit]
    exact hrec
  rw [hcur] at hlt hlast
  have hlen : (started (r.input m)).plan.length = words (started (r.input m)).bytes :=
    plan_length _
  refine ⟨m, hm, ⟨_, by rwa [hlen], hsent⟩, ?_, plan_covers (by rwa [huop])⟩
  rw [hlast, hsent, List.take_eq_self_iff, hlen]
  constructor
  · exact fun heq => heq.ge
  · exact fun hge => Nat.le_antisymm hlt hge

/-- A run that cracks a string of six bytes into r31 and r0. -/
def wrappingRun : Clocked.Run (machine true) where
  start := ⟨false, 9, 0, 0⟩
  initial := rfl
  input _ :=
    { uop := { memSeq := .stringImm, srcB := 6, dst := 31, gprWrite := true, useImm := true }
      dispatch := true
      srcA := 0x1002 }

theorem cracking_covers_wrappingRun :
    emitted true wrappingRun 0 2 = (started (wrappingRun.input 0)).plan ∧
      Covers (started (wrappingRun.input 0)) (started (wrappingRun.input 0)).plan := by
  have hheld : wrappingRun.ObeysRecord ⟨{}, 0, 0, []⟩ (record true) Held 2 := by
    intro k hk
    obtain rfl | rfl : k = 0 ∨ k = 1 := by omega
    · exact fun hact => absurd hact (by decide)
    · exact fun _ _ => rfl
  obtain ⟨m, hm, -, hlast, hcovers⟩ :=
    cracking_covers true wrappingRun 1 hheld (by decide) (by decide)
  obtain rfl : m = 0 := by
    have hle := hm.le
    have hne : m ≠ 1 := by
      rintro rfl
      exact absurd hm.idle (by decide)
    omega
  exact ⟨hlast.1 (by decide), hcovers⟩

end Sequence
end SloPPC603
