import Mathlib.Algebra.Group.Action.Defs
import Mathlib.Algebra.Order.BigOperators.Group.List
import SloPPC603.Rename.Values

/-!
# The rename map names the youngest writer

What holds of the two units in every run from reset.

* `Tracks` — the map, the slots and their owners against the queue.
* `Lifetime` — a slot is freed when its entry leaves the queue.
* `ReadOk` — what a read returns.
* `rename_tracks` — all of these, over every run.

The slots can run out while the queue has room: an update load takes two of the
five.  `rename_full` is the run that does it.
-/

namespace SloPPC603
namespace Rename

open Completion (Entry entries entryAt)
open Clocked (Run lastAt)

/-! ## What is said of a run -/

/-- The table of the writes in flight, and the slots that are left. -/
structure Tracks (s : System) : Prop where
  /-- Each write in flight owns a slot of its own, no other slot is in use, and the
  map names the youngest write of each register. -/
  table : Holds (writes s.cq) s.rename
  /-- No slot leaks. -/
  free : (freeSlots s.rename).length + (writes s.cq).length = renameDepth
  /-- While no entry holds two slots, a queue with room leaves a slot free. -/
  room : (∀ e ∈ entries s.cq, (entryWrites e).length ≤ 1) → s.cq.count < cqDepth →
    freeSlots s.rename ≠ []

/-- A slot in use stays in use exactly while the entry that holds it is in flight,
and an update base stays what dispatch gave. -/
structure Lifetime (cfg : Completion.Config) (s : System) (i : Input) : Prop where
  freed : ∀ w ∈ writes s.cq, (System.step cfg s i).rename.valid w.slot = true ↔
    w.producer ∈ (entries (System.step cfg s i).cq).map Entry.tag
  base : ∀ w ∈ writes (System.step cfg s i).cq, w.update = true →
    (System.step cfg s i).rename.values w.slot =
      if w ∈ writes s.cq then s.rename.values w.slot else i.cq.alloc.updateValue

/-- A write has produced a value: a destination's entry has finished without a
fault, with that value; an update base is held since dispatch, and is what the entry
writes unless it has faulted. -/
def Produced (cfg : Completion.Config) (s : System) (i : Input) (w : Write)
    (v : BitVec 32) : Prop :=
  ∃ e ∈ entries s.cq, w ∈ entryWrites e ∧
    if w.update then
      v = s.rename.values w.slot ∧ (e.packet.updateWrite = true → v = e.packet.updateValue)
    else
      (Completion.settle cfg s.cq (cqPorts s i) e).done = true ∧
        (Completion.settle cfg s.cq (cqPorts s i) e).packet.gprWrite = true ∧
        v = (Completion.settle cfg s.cq (cqPorts s i) e).packet.value

/-- What a read of a register returns. -/
structure ReadOk (cfg : Completion.Config) (s : System) (i : Input) (reg : BitVec 5)
    (arch : BitVec 32) : Prop where
  none : lastAt Write.reg reg (writes s.cq) = none →
    (read cfg s i reg arch).ready = true ∧ (read cfg s i reg arch).value = arch
  some : ∀ w, lastAt Write.reg reg (writes s.cq) = some w →
    (read cfg s i reg arch).tag = w.slot ∧ (read cfg s i reg arch).producer = w.producer ∧
      ((read cfg s i reg arch).ready = true → Produced cfg s i w (read cfg s i reg arch).value)

/-- The slots, the map and the values. -/
structure RenameInv (s : System) : Prop where
  slots : SlotInv s
  values : ∀ e ∈ entries s.cq, ValueOk s.rename e

variable {cfg : Completion.Config} {s : System} {i : Input}

/-! ## The slots that are left -/

theorem tracks_of_renameInv (hI : RenameInv s) : Tracks s where
  table := hI.slots.holds
  free := freeSlots_length hI.slots.holds
  room := by
    intro hone hroom hnil
    have hlen := freeSlots_length hI.slots.holds
    have hle : (writes s.cq).length ≤ s.cq.count := by
      rw [writes, List.length_flatMap]
      have hsum := List.sum_le_card_nsmul ((entries s.cq).map fun e => (entryWrites e).length) 1
        (by
          intro x hx
          obtain ⟨e, he, rfl⟩ := List.mem_map.1 hx
          exact hone e he)
      rw [List.length_map, Completion.entries_length, smul_eq_mul, mul_one] at hsum
      exact hsum
    have hdepth : cqDepth = renameDepth := rfl
    rw [hnil, List.length_nil] at hlen
    omega

/-- A running port without a recovery is ready while the slots last. -/
theorem allocReady_iff (hI : RenameInv s) (hrst : i.cq.rstN = true)
    (hacc : Completion.redirectAccepted cfg s.cq (cqPorts s i) = false) (k : ℕ) :
    allocReady s.rename (renamePort cfg s i) k = true ↔
      (writes s.cq).length + k < renameDepth := by
  have hlen := freeSlots_length hI.slots.holds
  have hrun : (renamePort cfg s i).rstN = true := hrst
  have hrec : (renamePort cfg s i).recovery = false := hacc
  rw [allocReady, hrun, hrec]
  simp only [Bool.not_false, Bool.and_true, decide_eq_true_eq]
  omega

/-! ## The life of a slot -/

section Life

theorem producer_of_mem {e : Entry} {w : Write} (hw : w ∈ entryWrites e) :
    w.producer = e.tag := by
  rcases List.mem_append.1 hw with h0 | h1
  · split_ifs at h0
    · rw [List.mem_singleton.1 h0]
    · exact absurd h0 List.not_mem_nil
  · split_ifs at h1
    · rw [List.mem_singleton.1 h1]
    · exact absurd h1 List.not_mem_nil

/-- An old tag in the queue after the edge is the tag of an entry that stayed. -/
theorem staying_of_tag (hs : Completion.RingInv s.cq) (h : Legal cfg s i) {e : Entry}
    (he : e ∈ entries s.cq) :
    e.tag ∈ (entries (System.step cfg s i).cq).map Entry.tag ↔ e ∈ staying cfg s i := by
  rw [entries_step hs h, List.map_append, List.map_map]
  constructor
  · intro hin
    rcases List.mem_append.1 hin with hold | hnew
    · obtain ⟨d, hd, htag⟩ := List.mem_map.1 hold
      have heq := List.inj_on_of_nodup_map (Completion.nodup_tags hs) (mem_of_mem_staying hd) he
        htag
      rw [← heq]
      exact hd
    · rw [Completion.freshEntries_tag] at hnew
      exact absurd (List.mem_map_of_mem he) (Completion.fresh_not_mem hs h.queue hnew)
  · intro hstay
    exact List.mem_append_left _ (List.mem_map.2 ⟨e, hstay, rfl⟩)

/-- A write in flight before and after the edge is one of an entry that stayed. -/
theorem mem_staying_of_mem (hI : SlotInv s) (h : Legal cfg s i) {w : Write}
    (hw : w ∈ writes s.cq)
    (hslot : w.slot ∈ (writes (System.step cfg s i).cq).map Write.slot) :
    w ∈ (staying cfg s i).flatMap entryWrites := by
  rw [writes_step hI.ring h, List.map_append] at hslot
  rcases List.mem_append.1 hslot with hold | hnew
  · obtain ⟨v, hv, heq⟩ := List.mem_map.1 hold
    have hsame := hI.holds.eq_of_slot ((staying_sublist hI.ring h).subset hv) hw heq
    rw [← hsame]
    exact hv
  · rw [List.map_map] at hnew
    exact absurd hnew (slot_not_fired hI h hw)

/-- **A slot is freed exactly when its entry leaves the queue.** -/
theorem freed_iff (hI : SlotInv s) (h : Legal cfg s i) (hclean : KeepsClean cfg s i) {w : Write}
    (hw : w ∈ writes s.cq) : (System.step cfg s i).rename.valid w.slot = true ↔
      w.producer ∈ (entries (System.step cfg s i).cq).map Entry.tag := by
  obtain ⟨e, he, hwe⟩ := List.mem_flatMap.1 hw
  rw [producer_of_mem hwe, staying_of_tag hI.ring h he,
    (holds_step hI h hclean).valid]
  constructor
  · intro hin
    obtain ⟨d, hd, hwd⟩ := List.mem_flatMap.1 (mem_staying_of_mem hI h hw hin)
    have htag : d.tag = e.tag := (producer_of_mem hwd).symm.trans (producer_of_mem hwe)
    have heq := List.inj_on_of_nodup_map (Completion.nodup_tags hI.ring)
      (mem_of_mem_staying hd) he htag
    rw [← heq]
    exact hd
  · intro hstay
    rw [writes_step hI.ring h, List.map_append]
    exact List.mem_append_left _
      (List.mem_map_of_mem (List.mem_flatMap.2 ⟨e, hstay, hwe⟩))

/-- **An update base stays what dispatch gave.** -/
theorem base_step (hI : SlotInv s) (h : Legal cfg s i) {w : Write}
    (hw : w ∈ writes (System.step cfg s i).cq) (hup : w.update = true) :
    (System.step cfg s i).rename.values w.slot =
      if w ∈ writes s.cq then s.rename.values w.slot else i.cq.alloc.updateValue := by
  by_cases hold : w ∈ writes s.cq
  · rw [if_pos hold]
    obtain ⟨e, he, hwe⟩ :=
      List.mem_flatMap.1 (mem_staying_of_mem hI h hold (List.mem_map_of_mem hw))
    have hin := mem_of_mem_staying he
    have h0 : ¬ (wakeMatch s.rename (wakeO cfg s i) = true ∧ (wakeO cfg s i).tag = w.slot) := by
      rintro ⟨hm, htag⟩
      rw [(wake_names0 hI hm hin hwe htag).2.2] at hup
      cases hup
    have h1 : ¬ (wakeMatch s.rename (wake1O cfg s i) = true ∧
        (wake1O cfg s i).tag = w.slot) := by
      rintro ⟨hm, htag⟩
      rw [(wake_names1 hI hm hin hwe htag).2.2] at hup
      cases hup
    rw [values_staying hI h he hwe, woken_values, renamePort_wake, renamePort_wake1, if_neg h1,
      if_neg h0]
  · rw [if_neg hold]
    rw [writes, entries_step hI.ring h, List.flatMap_append, List.flatMap_map] at hw
    simp only [entryWrites_settle] at hw
    rcases List.mem_append.1 hw with hstay | hnew
    · exact absurd ((staying_sublist hI.ring h).subset hstay) hold
    · obtain ⟨e, he, hwe⟩ := List.mem_flatMap.1 hnew
      exact (slot_fresh h he hwe).2 hup

end Life

/-! ## Reads -/

section Reads

/-- A ready slot of the table is read as it stands. -/
theorem read_of_ready {reg : BitVec 5} {arch : BitVec 32} {w : Write}
    (hv : s.rename.mapValid reg = true) (ht : s.rename.mapTag reg = w.slot)
    (hr : s.rename.ready w.slot = true) :
    (read cfg s i reg arch).value = s.rename.values w.slot := by
  simp [read, readOperand, hv, ht, hr]

/-- One that is not takes the value of a wake. -/
theorem read_of_not_ready {reg : BitVec 5} {arch : BitVec 32} {w : Write}
    (hv : s.rename.mapValid reg = true) (ht : s.rename.mapTag reg = w.slot)
    (hr : s.rename.ready w.slot = false) :
    (read cfg s i reg arch).value =
      (if i.result1Offer = true ∧ (wake1O cfg s i).tag = w.slot ∧
          s.rename.owners w.slot = i.cq.result1.producer then i.cq.result1.value
        else if s.rename.owners w.slot = i.cq.result.producer then i.cq.result.value else 0) ∧
      ((read cfg s i reg arch).ready = true →
        (wakeMatch s.rename (wakeO cfg s i) = true ∧ (wakeO cfg s i).tag = w.slot) ∨
        (wakeMatch s.rename (wake1O cfg s i) = true ∧ (wake1O cfg s i).tag = w.slot)) := by
  constructor
  · simp only [read, readOperand, hv, if_true, ht, hr, renamePort_wake, renamePort_wake1,
      Bool.not_false, Bool.true_and, Bool.and_eq_true, decide_eq_true_eq, Bool.false_eq_true,
      if_false, and_assoc]
    rfl
  · simp only [read, readOperand, hv, if_true, ht, hr, renamePort_wake, renamePort_wake1,
      Bool.false_or, Bool.or_eq_true, Bool.and_eq_true, decide_eq_true_eq]
    tauto

/-- **A destination that reads ready reads the value its entry finished with.** -/
theorem read_main (hI : RenameInv s) (h : Legal cfg s i) {reg : BitVec 5} {arch : BitVec 32}
    {e : Entry} (he : e ∈ entries s.cq) {w : Write} (hw : w ∈ entryWrites e)
    (hup : w.update = false) (hv : s.rename.mapValid reg = true)
    (ht : s.rename.mapTag reg = w.slot) (hready : (read cfg s i reg arch).ready = true) :
    (Completion.settle cfg s.cq (cqPorts s i) e).done = true ∧
      (Completion.settle cfg s.cq (cqPorts s i) e).packet.gprWrite = true ∧
      (read cfg s i reg arch).value =
        (Completion.settle cfg s.cq (cqPorts s i) e).packet.value := by
  have hown := hI.slots.holds.owner w (List.mem_flatMap.2 ⟨e, he, hw⟩)
  rw [producer_of_mem hw] at hown
  cases hr : s.rename.ready w.slot with
  | true =>
    have hmain : e.packet.renameOwned = true ∧ w.slot = e.packet.tag := by
      rcases List.mem_append.1 hw with h0 | h1
      · split_ifs at h0 with howned
        · rw [List.mem_singleton.1 h0]
          exact ⟨howned, rfl⟩
        · exact absurd h0 List.not_mem_nil
      · split_ifs at h1
        · rw [List.mem_singleton.1 h1] at hup
          exact absurd hup.symm Bool.false_ne_true
        · exact absurd h1 List.not_mem_nil
    have hslot := hr
    rw [hmain.2] at hslot
    obtain ⟨hdone, hgpr, hval⟩ := (hI.values e he).main hmain.1 hslot
    rw [settle_of_done he hdone, read_of_ready hv ht hr, hmain.2]
    exact ⟨hdone, hgpr, hval⟩
  | false =>
    obtain ⟨hvalue, hwake⟩ := @read_of_not_ready cfg s i reg arch w hv ht hr
    rw [hvalue, hown]
    rcases hwake hready with ⟨hm, htag⟩ | ⟨hm, htag⟩
    · obtain ⟨hprod, hgpr, -⟩ := wake_names0 hI.slots hm he hw htag
      have hset := settle_of_wake h he hgpr (wakeMatch_spec hm).1 hprod
      refine ⟨hset.1, hset.2.1, ?_⟩
      rw [hset.2.2]
      split_ifs with h1
      -- an offer on the second port for the same entry carries the same value
      · exact h.offerValue h1.1 (h1.2.2.symm.trans hprod.symm)
      · rfl
      · exact absurd hprod.symm (by assumption)
    · obtain ⟨hprod, hgpr, -⟩ := wake_names1 hI.slots hm he hw htag
      have hvalid := (wakeMatch_spec hm).1
      have hset := settle_of_wake1 h he hgpr hvalid hprod
      have hacc : Completion.finish1Accept cfg s.cq (cqPorts s i) = true := by
        simp only [wake1O, Bool.and_eq_true] at hvalid
        exact hvalid.1
      have hoffer := h.offer (Completion.finishOwner_spec hacc).1
      refine ⟨hset.1, hset.2.1, ?_⟩
      rw [hset.2.2, if_pos ⟨hoffer, htag, hprod.symm⟩]

/-- **What a read returns.** -/
theorem readOk (hI : RenameInv s) (h : Legal cfg s i) (reg : BitVec 5) (arch : BitVec 32) :
    ReadOk cfg s i reg arch := by
  have hmap := hI.slots.holds.mapped reg
  constructor
  · intro hlast
    rw [hlast] at hmap
    have hv : s.rename.mapValid reg = false := hmap
    simp [read, readOperand, hv]
  · intro w hlast
    rw [hlast] at hmap
    have hv : s.rename.mapValid reg = true := hmap
    have ht := hI.slots.holds.tag reg w hlast
    have hin := Clocked.mem_of_lastAt hlast
    obtain ⟨e, he, hw⟩ := List.mem_flatMap.1 hin
    refine ⟨?_, ?_, ?_⟩
    · simp [read, readOperand, hv, ht]
    · simp [read, readOperand, hv, ht, hI.slots.holds.owner w hin]
    · intro hready
      refine ⟨e, he, hw, ?_⟩
      cases hup : w.update with
      | false => exact read_main hI h he hw hup hv ht hready
      | true =>
        have hbase : e.packet.updateOwned = true ∧ w.slot = e.packet.updateTag := by
          rcases List.mem_append.1 hw with h0 | h1
          · split_ifs at h0
            · rw [List.mem_singleton.1 h0] at hup
              cases hup
            · exact absurd h0 List.not_mem_nil
          · split_ifs at h1 with howned
            · rw [List.mem_singleton.1 h1]
              exact ⟨howned, rfl⟩
            · exact absurd h1 List.not_mem_nil
        obtain ⟨hslot, hval⟩ := (hI.values e he).base hbase.1
        rw [← hbase.2] at hslot hval
        rw [if_pos rfl, read_of_ready hv ht hslot]
        exact ⟨rfl, hval⟩

end Reads

/-! ## Every run -/

theorem renameInv_start (h : (machine cfg).Initial s) : RenameInv s := by
  obtain ⟨s₀, i, hrst, rfl⟩ := h
  have hcq : (System.step cfg s₀ i).cq = Completion.resetState := by
    have hcqrst : (cqPorts s₀ i).rstN = false := hrst
    simp [System.step, Completion.step, hcqrst]
  have hnil : entries (System.step cfg s₀ i).cq = [] := by rw [hcq, Completion.entries_resetState]
  have hstep : (System.step cfg s₀ i).rename = Rename.step s₀.rename (renamePort cfg s₀ i) := rfl
  have hport : (renamePort cfg s₀ i).rstN = false := hrst
  refine ⟨⟨?_, ?_, ?_⟩, ?_⟩
  · rw [hcq]
    exact Completion.ringInv_resetState
  · simp [hnil]
  · rw [writes, hnil, List.flatMap_nil]
    exact holds_nil (by simp [hstep, Rename.step, hport]) (by simp [hstep, Rename.step, hport])
  · simp [hnil]

/-- The rules of one cycle, and no recovery over a faulted writer. -/
def CleanLegal (cfg : Completion.Config) (s : System) (i : Input) : Prop :=
  Legal cfg s i ∧ KeepsClean cfg s i

theorem renameInv_step (hI : RenameInv s) (h : CleanLegal cfg s i) :
    RenameInv (System.step cfg s i) where
  slots := slotInv_step hI.slots h.1 h.2
  values := values_step hI.slots h.1 h.2 hI.values

theorem renameInv_run {r : Run (machine cfg)} {n : ℕ} (h : r.Obeys (CleanLegal cfg) n) :
    RenameInv (r.state n) :=
  Run.invariant (fun _ hs => renameInv_start hs) (fun _ _ hI hi => renameInv_step hI hi) h

/-- **The map names the youngest writer, no slot leaks, and a ready read is the
value its writer produced**, in every run. -/
theorem rename_tracks (cfg : Completion.Config) (r : Run (machine cfg)) (n : ℕ)
    (h : r.Obeys (CleanLegal cfg) n) :
    Tracks (r.state n) ∧ (∀ k < n, Lifetime cfg (r.state k) (r.input k)) ∧
      (∀ k < n, Completion.redirectAccepted cfg (r.state k).cq
          (cqPorts (r.state k) (r.input k)) = false →
        ∀ j, allocReady (r.state k).rename (renamePort cfg (r.state k) (r.input k)) j = true ↔
          (writes (r.state k).cq).length + j < renameDepth) ∧
      ∀ k < n, ∀ reg arch, ReadOk cfg (r.state k) (r.input k) reg arch := by
  have hinv : ∀ k < n, RenameInv (r.state k) := fun k hk => renameInv_run (h.mono hk.le)
  refine ⟨tracks_of_renameInv (renameInv_run h), ?_, ?_, ?_⟩
  · intro k hk
    exact ⟨fun w hw => freed_iff (hinv k hk).slots (h k hk).1 (h k hk).2 hw,
      fun w hw hup => base_step (hinv k hk).slots (h k hk).1 hw hup⟩
  · intro k hk hacc j
    exact allocReady_iff (hinv k hk) (h k hk).1.queue.running hacc j
  · intro k hk reg arch
    exact readOk (hinv k hk) (h k hk).1 reg arch

/-! ## Update loads fill the slots -/

/-- The queue and the slots out of reset. -/
def System.reset : System where
  cq := Completion.resetState
  rename :=
    { valid := fun _ => false
      ready := fun _ => false
      values := fun _ => 0
      owners := fun _ => default
      mapValid := fun _ => false
      mapTag := fun _ => 0 }

/-- An update load of `gpr` over the base `updateGpr`. -/
def updateLoadPacket (gpr updateGpr : BitVec 5) (ea : BitVec 32) : RetirePacket :=
  { (default : RetirePacket) with
    gprWrite := true
    gpr := gpr
    updateWrite := true
    updateOwned := true
    updateGpr := updateGpr
    updateValue := ea }

/-- Two update loads dispatch, then a load; the first one's data then arrives. -/
def loadInputs : ℕ → Input
  | 0 => { cq := { allocValid := true, alloc := updateLoadPacket 3 4 0x100#32 } }
  | 1 => { cq := { allocValid := true, alloc := updateLoadPacket 5 6 0x200#32 } }
  | 2 => { cq := { allocValid := true
                   alloc := { (default : RetirePacket) with gprWrite := true, gpr := 7 } } }
  | _ => { cq := { resultValid := true
                   result := { (default : ResultPacket) with
                     producer := ⟨0, 1⟩, value := 0x77#32, updateValue := 0x100#32 } } }

/-- The run of these inputs from reset. -/
def loadRun : Run (machine Completion.fullConfig) where
  start := System.reset
  initial := ⟨System.reset, { cq := { rstN := false } }, rfl, rfl⟩
  input := loadInputs

theorem loadRun_obeys : loadRun.Obeys (CleanLegal Completion.fullConfig) 4 := by
  intro k hk
  refine ⟨?_, fun hacc => absurd hacc ?_⟩
  · constructor
    · constructor <;> interval_cases k <;> decide
    · constructor <;> interval_cases k <;> decide
    all_goals interval_cases k <;> decide
  · interval_cases k <;> decide

/-- **The slots run out while the queue has room.**  Two update loads and a load hold
all five; the queue has two places left and would take another load. -/
theorem rename_full :
    loadRun.Obeys (CleanLegal Completion.fullConfig) 3 ∧
      (loadRun.state 3).cq.count = 3 ∧
      Completion.allocReady Completion.fullConfig (loadRun.state 3).cq
        (cqPorts (loadRun.state 3) (loadRun.input 3)) = true ∧
      allocReady (loadRun.state 3).rename
        (renamePort Completion.fullConfig (loadRun.state 3) (loadRun.input 3)) 0 = false :=
  ⟨loadRun_obeys.mono (by decide), by decide, by decide, by decide⟩

/-- The same run: the map names the load's slot, and the read of its destination
takes the arriving data. -/
theorem rename_tracks_loadRun :
    (read Completion.fullConfig (loadRun.state 3) (loadRun.input 3) 3 0).value = 0x77#32 ∧
      Tracks (loadRun.state 4) ∧
      (∀ k < 4, Lifetime Completion.fullConfig (loadRun.state k) (loadRun.input k)) ∧
      (∀ k < 4, Completion.redirectAccepted Completion.fullConfig (loadRun.state k).cq
          (cqPorts (loadRun.state k) (loadRun.input k)) = false →
        ∀ j, allocReady (loadRun.state k).rename
            (renamePort Completion.fullConfig (loadRun.state k) (loadRun.input k)) j = true ↔
          (writes (loadRun.state k).cq).length + j < renameDepth) ∧
      ∀ k < 4, ∀ reg arch,
        ReadOk Completion.fullConfig (loadRun.state k) (loadRun.input k) reg arch :=
  ⟨by decide, rename_tracks Completion.fullConfig loadRun 4 loadRun_obeys⟩

end Rename
end SloPPC603
