import SloPPC603.Flags.Dispatch

/-!
# What dispatch puts into the queue

The rules the rest of the core keeps (`Legal`), and the facts about the queue of
the joint machine that the token and the hazard rule share: the ports fire
exactly when the lanes dispatch, the fresh entries are the lanes' allocations,
and an entry that needs no flags writes none.

* `allocFire_eq`, `alloc1Fire_eq`, `freshEntries_eq` — the ports and the lanes.
* `entries_step` — the edge on the list of entries.
* `WritesNeedFlags`, `writesNeedFlags_step` — a flag writer needs the flags.
-/

namespace SloPPC603
namespace Flags

open Completion (Entry entries)

/-! ## Rules -/

/-- What the core promises of a lane. -/
structure Lane.Legal (dec : DecodeConfig) (l : Lane) : Prop where
  /-- Only a branch is removed at dispatch. -/
  removed : l.removed = true → l.branch = true
  /-- The branch unit takes branches. -/
  branch : l.branch = true → (l.uop dec).specialOp.branch = true
  /-- Only a branch allocates finished. -/
  finished : l.finished = true → l.branch = true
  /-- The FPU takes FP forms. -/
  fp : l.fp = true → (l.uop dec).specialOp = .fpu
  /-- Only a plain access or an LR or CTR move overtakes the drain. -/
  plain : l.plain = true → (decode dec l.insn).plain l.insn = true

/-- The rules of one cycle. -/
structure Legal (cfg : Config) (s : System) (i : Input) : Prop where
  lane0 : i.lane0.Legal cfg.decode
  lane1 : i.lane1.Legal cfg.decode
  /-- An exception dispatches from the first lane. -/
  direct1 : i.lane1.replaced = none
  queue : Completion.LegalInput cfg.cq s.cq (ports cfg s i)
  recovery : Completion.LegalRecovery cfg.cq s.cq (ports cfg s i)

/-! ## Lanes -/

section Lanes

variable {dec : DecodeConfig} {l : Lane}

theorem Uop.flagged_eq_false_iff {u : Uop} : u.flagged = false ↔ u.flagFree = true := by
  simp [Uop.flagged, Uop.flagFree]

theorem Diagnostic.uop_disciplined (insn : BitVec 32) (d : Diagnostic) :
    Disciplined insn d.uop := by
  cases d
  · exact disciplined_undecoded
  all_goals exact disciplined_special _

theorem Uop.align_disciplined {insn : BitVec 32} {u : Uop} (h : Disciplined insn u)
    (misaligned : Bool) : Disciplined insn (u.align misaligned) := by
  unfold Uop.align
  split_ifs with hal
  · simp only [Bool.and_eq_true, Bool.or_eq_true, Bool.not_eq_true', decide_eq_true_eq] at hal
    obtain ⟨⟨-, hlegal⟩, hop⟩ := hal
    have hcarry : u.carryIn ≠ .ca := by
      intro hca
      rw [(h.carry hca).1] at hop
      simp at hop
    have hov : u.writeOvSo = false := by
      by_contra hov
      rcases h.overflow (by simpa using hov) with hnone | hnone <;> simp [hnone] at hop
    constructor <;> simp_all [SpecialOp.branch, Uop.plain]
  · exact h

/-- Every lane keeps the flag discipline. -/
theorem Lane.uop_disciplined (dec : DecodeConfig) (l : Lane) :
    Disciplined l.insn (l.uop dec) := by
  unfold Lane.uop
  split
  · exact Diagnostic.uop_disciplined _ _
  · exact Uop.align_disciplined (decode_disciplined dec l.insn) l.misaligned

theorem Lane.Legal.branch_flagFree (h : l.Legal dec) (hb : l.branch = true) :
    (l.uop dec).flagFree = true := (l.uop_disciplined dec).branch (h.branch hb)

/-- An operation that touches no flag writes none. -/
theorem Uop.flagFree_writes {u : Uop} (h : u.flagFree = true) : u.writeXer = false ∧
    u.writeCa = false ∧ u.writeOvSo = false ∧ u.writeCrField = false ∧
    u.writeCrFields = false ∧ u.writeCrBit = false := by
  simp only [Uop.flagFree, Bool.not_eq_true', Bool.or_eq_false_iff] at h
  tauto

end Lanes

/-! ## Ports -/

section Ports

variable {cfg : Config} {s : System} {i : Input}

@[simp] theorem ports_recovery :
    Completion.redirectAccepted cfg.cq s.cq (ports cfg s i) = recovery cfg s i := rfl

theorem allocReady_ports :
    Completion.allocReady cfg.cq s.cq (ports cfg s i) = cqReady cfg s i := rfl

theorem alloc1Ready_ports :
    Completion.alloc1Ready cfg.cq s.cq (ports cfg s i) = cq1Ready cfg s i := rfl

/-- A dispatch and a recovery never share a cycle. -/
theorem recovery_of_dispatch (h : dispatch cfg s i = true) : recovery cfg s i = false := by
  by_contra hne
  have hrec : recovery cfg s i = true := by simpa using hne
  have hready : cqReady cfg s i = false := by
    show (!recovery cfg s i && _) = false
    rw [hrec]
    rfl
  simp [dispatch, hready, hrec] at h

theorem dispatch_of_dispatch1 (h : dispatch1 cfg s i = true) : dispatch cfg s i = true := by
  simp only [dispatch1, Bool.and_eq_true] at h
  exact h.1.1.1.1.1

theorem allocFire_eq : Completion.allocFire cfg.cq s.cq (ports cfg s i) =
    (dispatch cfg s i && !i.lane0.removed) := by
  rw [Completion.allocFire, allocReady_ports]
  show (dispatch cfg s i && !i.lane0.removed && cqReady cfg s i) = _
  cases hd : dispatch cfg s i with
  | false => rfl
  | true =>
    cases hr : i.lane0.removed with
    | true => rfl
    | false =>
      simp only [dispatch, hr, Bool.and_eq_true, Bool.false_and, Bool.or_false] at hd
      simp [hd.1.2]

theorem alloc1Fire_eq : Completion.alloc1Fire cfg.cq s.cq (ports cfg s i) =
    (dispatch1 cfg s i && !i.lane1.removed) := by
  rw [Completion.alloc1Fire, allocFire_eq, alloc1Ready_ports]
  show ((dispatch cfg s i && !i.lane0.removed || i.lane0.removed) &&
    (dispatch1 cfg s i && !i.lane1.removed) && cq1Ready cfg s i) = _
  cases hd : dispatch1 cfg s i with
  | false => simp
  | true =>
    cases hr : i.lane1.removed with
    | true => simp
    | false =>
      have hd0 := dispatch_of_dispatch1 hd
      simp only [dispatch1, hr, Bool.and_eq_true, Bool.or_false] at hd
      cases i.lane0.removed <;> simp [hd0, hd.1.1.2]

/-- The fresh entries are the lanes' allocations. -/
theorem freshEntries_eq : Completion.freshEntries cfg.cq s.cq (ports cfg s i) =
    (if dispatch cfg s i && !i.lane0.removed then
      [⟨allocProducer s, Completion.normalize (allocation0 cfg i),
        (allocation0 cfg i).illegal || (i.lane0.fp || i.lane0.finished)⟩] else []) ++
    (if dispatch1 cfg s i && !i.lane1.removed then
      [⟨alloc1Producer cfg s i, Completion.normalize (allocation1 cfg i),
        (allocation1 cfg i).illegal || (i.lane1.fp || i.lane1.branch)⟩] else []) := by
  rw [Completion.freshEntries, allocFire_eq, alloc1Fire_eq]
  rfl

theorem pops_le_kept (hs : Completion.RingInv s.cq) (h : Legal cfg s i) :
    Completion.pops cfg.cq s.cq (ports cfg s i) ≤
      Completion.kept cfg.cq s.cq (ports cfg s i) :=
  Completion.pops_le_kept_of_legal hs h.queue h.recovery

theorem kept_of_not_recovery (h : recovery cfg s i = false) :
    Completion.kept cfg.cq s.cq (ports cfg s i) = s.cq.count := by
  rw [Completion.kept, ports_recovery, h]
  rfl

theorem step_eq (h : Legal cfg s i) : System.step cfg s i =
    { cq := Completion.step cfg.cq s.cq (ports cfg s i)
      flags := Flags.step s.flags (flagsPort cfg s i)
      caPending := nextPending cfg s i Uop.writesCa s.caPending s.caWriter
      caWriter := nextWriter cfg s i Uop.writesCa s.caWriter
      soPending := nextPending cfg s i Uop.writesSo s.soPending s.soWriter
      soWriter := nextWriter cfg s i Uop.writesSo s.soWriter
      operands := nextOperands cfg s i } := by
  have hrst : i.cq.rstN = true := h.queue.running
  rw [System.step, if_pos hrst]

/-- The ring invariant of the queue survives. -/
theorem ringInv_step (hs : Completion.RingInv s.cq) (h : Legal cfg s i) :
    Completion.RingInv (System.step cfg s i).cq := by
  rw [step_eq h]
  exact Completion.ringInv_step (pops_le_kept hs h) hs h.queue

/-- **The edge on the list of entries.** -/
theorem entries_step (hs : Completion.RingInv s.cq) (h : Legal cfg s i) :
    entries (System.step cfg s i).cq =
      (survivors cfg s i).map (Completion.settle cfg.cq s.cq (ports cfg s i)) ++
        Completion.freshEntries cfg.cq s.cq (ports cfg s i) := by
  rw [step_eq h]
  exact Completion.entries_step hs h.queue (pops_le_kept hs h)

/-- The queue is what retires, what stays and what the recovery removes. -/
theorem entries_split (hs : Completion.RingInv s.cq) (h : Legal cfg s i) : entries s.cq =
    (entries s.cq).take (Completion.pops cfg.cq s.cq (ports cfg s i)) ++
      (survivors cfg s i ++
        (entries s.cq).drop (Completion.kept cfg.cq s.cq (ports cfg s i))) :=
  (Clocked.OrderedQueue.take_append_drop_take _ (pops_le_kept hs h)).symm

theorem mem_of_mem_survivors {e : Entry} (h : e ∈ survivors cfg s i) : e ∈ entries s.cq :=
  List.mem_of_mem_take (List.mem_of_mem_drop h)

end Ports

/-! ## Flag writers need the flags -/

section Writers

variable {cfg : Config} {s : System} {i : Input}

/-- An entry that needs no flags writes none. -/
def WritesNeedFlags (s : System) : Prop :=
  ∀ e ∈ entries s.cq, e.packet.needsFlags = false → writesFlags e.packet = false

theorem normalize_writesNeedFlags (a : RetirePacket)
    (h : (Completion.normalize a).needsFlags = false) :
    writesFlags (Completion.normalize a) = false := by
  simp only [Completion.normalize, writesFlags] at h ⊢
  cases ha : a.illegal <;> simp_all

theorem settle_writesNeedFlags (e : Entry)
    (he : e.packet.needsFlags = false → writesFlags e.packet = false)
    (h : (Completion.settle cfg.cq s.cq (ports cfg s i) e).packet.needsFlags = false) :
    writesFlags (Completion.settle cfg.cq s.cq (ports cfg s i) e).packet = false := by
  simp only [Completion.settle, Completion.finishedPacket, Completion.finishInto] at h ⊢
  split_ifs at h ⊢ <;>
    first
      | exact he h
      | rfl

/-- **Flag writers go on needing the flags.** -/
theorem writesNeedFlags_step (hs : Completion.RingInv s.cq) (h : Legal cfg s i)
    (hw : WritesNeedFlags s) : WritesNeedFlags (System.step cfg s i) := by
  intro e he hneeds
  rw [entries_step hs h] at he
  rcases List.mem_append.1 he with hold | hnew
  · obtain ⟨e, hmem, rfl⟩ := List.mem_map.1 hold
    exact settle_writesNeedFlags e (hw e (mem_of_mem_survivors hmem)) hneeds
  · unfold Completion.freshEntries at hnew
    rcases List.mem_append.1 hnew with h0 | h1
    · split_ifs at h0
      · rw [List.mem_singleton] at h0
        subst h0
        exact normalize_writesNeedFlags _ hneeds
      · exact absurd h0 List.not_mem_nil
    · split_ifs at h1
      · rw [List.mem_singleton] at h1
        subst h1
        exact normalize_writesNeedFlags _ hneeds
      · exact absurd h1 List.not_mem_nil

end Writers

end Flags
end SloPPC603
