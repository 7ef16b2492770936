import SloPPC603.Clocked.LastWrite
import SloPPC603.Completion.Entries
import SloPPC603.Rename.Model

/-!
# The register writes in flight

An entry of the completion queue holds a rename slot for its destination, and an
update form of the load/store unit a second one for its base.  `writes` lists
these, oldest first; an edge takes the writes of the entries that leave and adds
those of the allocation ports that fire.

* `Legal` — the rules the rest of the core keeps.
* `writes`, `writes_step` — the list, and one edge on it.
* `fresh_writes` — what the lanes allocate is what the ports are given.
-/

namespace SloPPC603
namespace Rename

open Completion (Entry entries)

/-! ## The list of writes -/

/-- A register write in flight and the slot it holds. -/
structure Write where
  reg : BitVec 5
  slot : BitVec 3
  producer : CompletionTag
  /-- The write of an update form's base. -/
  update : Bool
  deriving DecidableEq, Repr

/-- The slots an entry holds: its destination's, then its update base's. -/
def entryWrites (e : Entry) : List Write :=
  (if e.packet.renameOwned then [⟨e.packet.gpr, e.packet.tag, e.tag, false⟩] else []) ++
    (if e.packet.updateOwned then [⟨e.packet.updateGpr, e.packet.updateTag, e.tag, true⟩]
      else [])

/-- The register writes in flight, oldest first. -/
def writes (s : Completion.State) : List Write := (entries s).flatMap entryWrites

/-- The entries that stay, as they were before the edge. -/
def staying (cfg : Completion.Config) (s : System) (i : Input) : List Entry :=
  ((entries s.cq).take (Completion.kept cfg s.cq (cqPorts s i))).drop
    (Completion.pops cfg s.cq (cqPorts s i))

/-! ## Rules -/

/-- The rules of one cycle: what the two units assert of their inputs, and the
core's promises at dispatch. -/
structure Legal (cfg : Completion.Config) (s : System) (i : Input) : Prop where
  queue : Completion.LegalInput cfg s.cq (cqPorts s i)
  recovery : Completion.LegalRecovery cfg s.cq (cqPorts s i)
  /-- A lane dispatches into a free place of the queue. -/
  lane0 : i.cq.allocValid = true → Completion.allocReady cfg s.cq (cqPorts s i) = true
  lane1 : i.cq.alloc1Valid = true → Completion.alloc1Ready cfg s.cq (cqPorts s i) = true
  /-- And with the rename slots it takes free. -/
  slot0 : (port0 s i).valid = true → allocReady s.rename (renamePort cfg s i) 0 = true
  slot1 : (port1 s i).valid = true → allocReady s.rename (renamePort cfg s i) 1 = true
  slot2 : (port2 s i).valid = true → allocReady s.rename (renamePort cfg s i) 2 = true
  /-- A diagnostic writes no register. -/
  diagnostic : i.cq.alloc.illegal = true →
    i.cq.alloc.gprWrite = false ∧ i.cq.alloc.updateOwned = false
  /-- Only an update form takes a slot for its base. -/
  update : i.cq.alloc.updateOwned = true → i.cq.alloc.updateWrite = true
  /-- A branch removed at dispatch writes no register. -/
  removed : i.cq.alloc1AtTail = true →
    i.cq.alloc.gprWrite = false ∧ i.cq.alloc.updateOwned = false
  /-- The ports finish different entries. -/
  shared1 : i.cq.resultValid = true → i.cq.result1Valid = true →
    i.cq.result.producer ≠ i.cq.result1.producer
  shared2 : i.cq.result2Valid = true →
    (i.cq.resultValid = true → i.cq.result.producer ≠ i.cq.result2.producer) ∧
      (i.cq.result1Valid = true → i.cq.result1.producer ≠ i.cq.result2.producer)
  /-- The second port finishes no update form. -/
  port1 : ∀ e ∈ entries s.cq, Completion.finish1Accept cfg s.cq (cqPorts s i) = true →
    i.cq.result1.producer = e.tag → e.packet.updateWrite = false
  /-- The third port finishes no register writer. -/
  port2 : ∀ e ∈ entries s.cq, Completion.finish2Accept cfg s.cq (cqPorts s i) = true →
    i.cq.result2.producer = e.tag → e.packet.gprWrite = false ∧ e.packet.updateWrite = false
  /-- The load/store unit returns the base it was given. -/
  base : ∀ e ∈ entries s.cq, Completion.finishAccept cfg s.cq (cqPorts s i) = true →
    i.cq.result.producer = e.tag → e.packet.updateOwned = true →
    i.cq.result.updateValue = e.packet.updateValue
  /-- A valid result is an offered one, and one that the first port carries too is
  the same value. -/
  offer : i.cq.result1Valid = true → i.result1Offer = true
  offerValue : i.result1Offer = true → i.cq.result1.producer = i.cq.result.producer →
    i.cq.result1.value = i.cq.result.value
  /-- An update form does not retire from CQ[1] (`retire1_gate`). -/
  second : i.cq.retire1Ready = true →
    (Completion.entryAt s.cq 1).packet.updateWrite = false

/-! ## One edge -/

section Edge

variable {cfg : Completion.Config} {s : System} {i : Input}

theorem pops_le_kept (hs : Completion.RingInv s.cq) (h : Legal cfg s i) :
    Completion.pops cfg s.cq (cqPorts s i) ≤ Completion.kept cfg s.cq (cqPorts s i) :=
  Completion.pops_le_kept_of_legal hs h.queue h.recovery

theorem ringInv_step (hs : Completion.RingInv s.cq) (h : Legal cfg s i) :
    Completion.RingInv (System.step cfg s i).cq :=
  Completion.ringInv_step (pops_le_kept hs h) hs h.queue

theorem entries_step (hs : Completion.RingInv s.cq) (h : Legal cfg s i) :
    entries (System.step cfg s i).cq =
      (staying cfg s i).map (Completion.settle cfg s.cq (cqPorts s i)) ++
        Completion.freshEntries cfg s.cq (cqPorts s i) :=
  Completion.entries_step hs h.queue (pops_le_kept hs h)

/-- The queue is what retires, what stays and what the recovery removes. -/
theorem entries_split (hs : Completion.RingInv s.cq) (h : Legal cfg s i) : entries s.cq =
    (entries s.cq).take (Completion.pops cfg s.cq (cqPorts s i)) ++ (staying cfg s i ++
      (entries s.cq).drop (Completion.kept cfg s.cq (cqPorts s i))) :=
  (Clocked.OrderedQueue.take_append_drop_take _ (pops_le_kept hs h)).symm

theorem mem_of_mem_staying {e : Entry} (h : e ∈ staying cfg s i) : e ∈ entries s.cq :=
  List.mem_of_mem_take (List.mem_of_mem_drop h)

/-- **A finish, faulting or not, leaves an entry the slots it holds.** -/
theorem entryWrites_settle (e : Entry) :
    entryWrites (Completion.settle cfg s.cq (cqPorts s i) e) = entryWrites e := by
  have hfault : ∀ n : ResultPacket,
      entryWrites ⟨e.tag, Completion.mergeFault e.packet (Completion.faulted e.packet n),
        e.done || Completion.finishes cfg s.cq (cqPorts s i) e⟩ = entryWrites e := by
    intro n
    cases hu : e.packet.updateOwned <;>
      simp [entryWrites, Completion.mergeFault, Completion.mergeFinish, Completion.faulted, hu]
  simp only [Completion.settle, Completion.finishedPacket, Completion.finishInto]
  split_ifs
  · exact hfault _
  · rfl
  · rfl
  · exact hfault _
  · rfl
  · rfl

/-- The allocations of a running machine fire when the lanes are legal. -/
theorem allocFire_eq (h : Legal cfg s i) :
    Completion.allocFire cfg s.cq (cqPorts s i) = i.cq.allocValid := by
  show (i.cq.allocValid && Completion.allocReady cfg s.cq (cqPorts s i)) = _
  cases hv : i.cq.allocValid with
  | false => rfl
  | true => rw [h.lane0 hv]; rfl

theorem alloc1Fire_eq (h : Legal cfg s i) :
    Completion.alloc1Fire cfg s.cq (cqPorts s i) = i.cq.alloc1Valid := by
  rw [Completion.alloc1Fire, allocFire_eq h]
  show ((i.cq.allocValid || i.cq.alloc1AtTail) && i.cq.alloc1Valid &&
    Completion.alloc1Ready cfg s.cq (cqPorts s i)) = _
  cases hv : i.cq.alloc1Valid with
  | false => simp
  | true =>
    have hlane : i.cq.allocValid = true ∨ i.cq.alloc1AtTail = true := by
      by_cases hat : i.cq.alloc1AtTail = true
      · exact Or.inr hat
      · rw [Bool.not_eq_true] at hat
        exact Or.inl (h.queue.lane1 hv hat)
    rcases hlane with hlane | hlane <;> simp [hlane, h.lane1 hv]

/-- What a firing port writes. -/
def portWrite (a : BitVec 3 × AllocPort) : Write :=
  ⟨a.2.reg, a.1, a.2.producer, a.2.valueValid⟩

/-- The ports that fire are those asked for. -/
theorem fired_eq (h : Legal cfg s i) : fired s.rename (renamePort cfg s i) =
    (if (Rename.port0 s i).valid then [(allocTag s.rename 0, Rename.port0 s i)] else []) ++
      (if (Rename.port1 s i).valid then [(allocTag s.rename 1, Rename.port1 s i)] else []) ++
      (if (Rename.port2 s i).valid then [(allocTag s.rename 2, Rename.port2 s i)] else []) := by
  have h0 := h.slot0
  have h1 := h.slot1
  have h2 := h.slot2
  show (([Rename.port0 s i, Rename.port1 s i, Rename.port2 s i] : List AllocPort).zipIdx).filterMap
    _ = _
  simp only [List.zipIdx_cons, List.zipIdx_nil, List.filterMap_cons, List.filterMap_nil]
  cases hv0 : (Rename.port0 s i).valid <;> cases hv1 : (Rename.port1 s i).valid <;>
    cases hv2 : (Rename.port2 s i).valid <;> simp_all

/-- The slots lane 0's entry holds. -/
theorem entryWrites_lane0 (h : Legal cfg s i) (hv : i.cq.allocValid = true) (done : Bool) :
    entryWrites ⟨Completion.allocTag s.cq, Completion.normalize (allocation s i), done⟩ =
      (if i.cq.alloc.gprWrite then
        [⟨i.cq.alloc.gpr, allocTag s.rename 0, Completion.allocTag s.cq, false⟩] else []) ++
      (if i.cq.alloc.updateOwned then
        [⟨i.cq.alloc.updateGpr, if i.cq.alloc.gprWrite then allocTag s.rename 1 else
          allocTag s.rename 0, Completion.allocTag s.cq, true⟩] else []) := by
  cases hill : i.cq.alloc.illegal with
  | true =>
    obtain ⟨hg, hu⟩ := h.diagnostic hill
    simp [entryWrites, Completion.normalize, allocation, updateAlloc, hill, hg, hu]
  | false =>
    have hupd := h.update
    cases hg : i.cq.alloc.gprWrite <;> cases hu : i.cq.alloc.updateOwned <;>
      simp_all [entryWrites, Completion.normalize, allocation, updateAlloc, updateAllocStore]

/-- The slot lane 1's entry holds. -/
theorem entryWrites_lane1 (done : Bool) :
    entryWrites ⟨Completion.alloc1Tag s.cq (cqPorts s i),
        Completion.normalize (allocation1 s i), done⟩ =
      if i.cq.alloc1.gprWrite then
        [⟨i.cq.alloc1.gpr, (allocation1 s i).tag, Completion.alloc1Tag s.cq (cqPorts s i),
          false⟩] else [] := by
  have hlegal : (allocation1 s i).illegal = false := rfl
  have howned : (allocation1 s i).updateOwned = false := rfl
  have hgpr : (allocation1 s i).gprWrite = i.cq.alloc1.gprWrite := rfl
  have hreg : (allocation1 s i).gpr = i.cq.alloc1.gpr := rfl
  simp [entryWrites, Completion.normalize, hlegal, howned, hgpr, hreg]

/-- **What the lanes allocate is what the ports are given.** -/
theorem fresh_writes (h : Legal cfg s i) :
    (Completion.freshEntries cfg s.cq (cqPorts s i)).flatMap entryWrites =
      (fired s.rename (renamePort cfg s i)).map portWrite := by
  have hquiet : i.cq.alloc1Valid = true → i.cq.allocValid = false →
      i.cq.alloc.gprWrite = false ∧ i.cq.alloc.updateOwned = false := by
    intro hv1 hv0
    apply h.removed
    by_contra hat
    rw [Bool.not_eq_true] at hat
    have hv : i.cq.allocValid = true := h.queue.lane1 hv1 hat
    rw [hv0] at hv
    cases hv
  have hleft : (Completion.freshEntries cfg s.cq (cqPorts s i)).flatMap entryWrites =
      (if i.cq.allocValid then
        (if i.cq.alloc.gprWrite then
          [⟨i.cq.alloc.gpr, allocTag s.rename 0, Completion.allocTag s.cq, false⟩] else []) ++
        (if i.cq.alloc.updateOwned then
          [⟨i.cq.alloc.updateGpr, if i.cq.alloc.gprWrite then allocTag s.rename 1 else
            allocTag s.rename 0, Completion.allocTag s.cq, true⟩] else []) else []) ++
      (if i.cq.alloc1Valid then
        (if i.cq.alloc1.gprWrite then
          [⟨i.cq.alloc1.gpr, (allocation1 s i).tag, Completion.alloc1Tag s.cq (cqPorts s i),
            false⟩] else []) else []) := by
    rw [Completion.freshEntries, allocFire_eq h, alloc1Fire_eq h, List.flatMap_append]
    congr 1
    · by_cases hv : i.cq.allocValid = true
      · rw [if_pos hv, if_pos hv, List.flatMap_singleton]
        exact entryWrites_lane0 h hv _
      · rw [if_neg hv, if_neg hv, List.flatMap_nil]
    · by_cases hv : i.cq.alloc1Valid = true
      · rw [if_pos hv, if_pos hv, List.flatMap_singleton]
        exact entryWrites_lane1 _
      · rw [if_neg hv, if_neg hv, List.flatMap_nil]
  rw [hleft, fired_eq h]
  obtain hv1 | hv1 := Bool.eq_false_or_eq_true i.cq.alloc1Valid <;>
    obtain hv0 | hv0 := Bool.eq_false_or_eq_true i.cq.allocValid <;>
    obtain hg | hg := Bool.eq_false_or_eq_true i.cq.alloc.gprWrite <;>
    obtain hu | hu := Bool.eq_false_or_eq_true i.cq.alloc.updateOwned <;>
    simp_all [Rename.port0, Rename.port1, Rename.port2, rename0Dq1, rename1Dq1, rename2Dq1, d1Gpr,
      updateAllocStore, updateAlloc, updateLoad, portWrite, allocation1]
  all_goals split_ifs <;> rfl

/-- **The edge on the writes.** -/
theorem writes_step (hs : Completion.RingInv s.cq) (h : Legal cfg s i) :
    writes (System.step cfg s i).cq = (staying cfg s i).flatMap entryWrites ++
      (fired s.rename (renamePort cfg s i)).map portWrite := by
  rw [writes, entries_step hs h, List.flatMap_append, fresh_writes h, List.flatMap_map]
  simp only [entryWrites_settle]

/-- The writes of what retires, what stays and what the recovery removes. -/
theorem writes_split (hs : Completion.RingInv s.cq) (h : Legal cfg s i) : writes s.cq =
    ((entries s.cq).take (Completion.pops cfg s.cq (cqPorts s i))).flatMap entryWrites ++
      ((staying cfg s i).flatMap entryWrites ++
        ((entries s.cq).drop (Completion.kept cfg s.cq (cqPorts s i))).flatMap entryWrites) := by
  conv_lhs => rw [writes, entries_split hs h]
  rw [List.flatMap_append, List.flatMap_append]

end Edge

end Rename
end SloPPC603
