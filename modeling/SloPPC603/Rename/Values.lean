import SloPPC603.Rename.Slots

/-!
# The values in the rename slots

A ready slot holds what its writer produced.  A destination's slot becomes ready
with a clean result for the entry, on the first or the second finish port; an
update base's slot is allocated ready with the base, and the load/store unit later
returns the same base.

* `ValueOk` — what the slots of an entry hold.
* `woken_ready`, `woken_values` — the wakes on one slot.
* `ready_staying`, `values_staying` — an edge moves no slot of an entry that stays
  but by a wake.
* `values_step` — the values over one edge.
-/

namespace SloPPC603
namespace Rename

open Completion (Entry entries entryAt)
open Clocked (lastAt)

/-- What the slots of an entry hold. -/
structure ValueOk (st : State) (e : Entry) : Prop where
  main : e.packet.renameOwned = true → st.ready e.packet.tag = true →
    e.done = true ∧ e.packet.gprWrite = true ∧ st.values e.packet.tag = e.packet.value
  base : e.packet.updateOwned = true → st.ready e.packet.updateTag = true ∧
    (e.packet.updateWrite = true → st.values e.packet.updateTag = e.packet.updateValue)

/-! ## The wakes -/

section Wakes

variable {s st : State} {i : Port}

theorem applyWake_ready (w : Wake) (t : BitVec 3) : (applyWake s st w).ready t =
    (st.ready t || (wakeMatch s w && decide (w.tag = t))) := by
  unfold applyWake
  by_cases hm : wakeMatch s w = true
  · rw [if_pos hm, hm]
    by_cases ht : t = w.tag
    · subst ht
      simp
    · simp [Function.update_of_ne ht, Ne.symm ht]
  · rw [if_neg hm]
    simp [hm]

theorem applyWake_values (w : Wake) (t : BitVec 3) : (applyWake s st w).values t =
    if wakeMatch s w = true ∧ w.tag = t then w.value else st.values t := by
  unfold applyWake
  by_cases hm : wakeMatch s w = true
  · by_cases ht : t = w.tag
    · subst ht
      simp [hm]
    · simp [hm, Function.update_of_ne ht, Ne.symm ht]
  · simp [hm]

/-- A slot is ready after the wakes when it was, or when a wake names it. -/
theorem woken_ready (t : BitVec 3) : (woken s i).ready t = true ↔ s.ready t = true ∨
    (wakeMatch s i.wake = true ∧ i.wake.tag = t) ∨
      (wakeMatch s i.wake1 = true ∧ i.wake1.tag = t) := by
  rw [woken, applyWake_ready, applyWake_ready]
  simp only [Bool.or_eq_true, Bool.and_eq_true, decide_eq_true_eq, or_assoc]

/-- The second port's wake is written last. -/
theorem woken_values (t : BitVec 3) : (woken s i).values t =
    if wakeMatch s i.wake1 = true ∧ i.wake1.tag = t then i.wake1.value
    else if wakeMatch s i.wake = true ∧ i.wake.tag = t then i.wake.value else s.values t := by
  rw [woken, applyWake_values, applyWake_values]

theorem wakeMatch_spec {w : Wake} (h : wakeMatch s w = true) :
    w.valid = true ∧ s.owners w.tag = w.producer := by
  simp only [wakeMatch, Bool.and_eq_true, Rename.owns, decide_eq_true_eq] at h
  exact ⟨h.1, h.2.2⟩

/-- The walk of a recovery sees the wakes that the ready bits take. -/
theorem readyNow_eq {t : BitVec 3} {producer : CompletionTag} (h : s.owners t = producer) :
    readyNow s i t producer = (woken s i).ready t := by
  have hown : ∀ w : Wake, (wakeMatch s w && w.tag = t && w.producer = producer) =
      (wakeMatch s w && decide (w.tag = t)) := by
    intro w
    by_cases hm : wakeMatch s w = true
    · by_cases ht : w.tag = t
      · have hprod : w.producer = producer := by rw [← (wakeMatch_spec hm).2, ht, h]
        simp [hprod]
      · simp [ht]
    · simp [hm]
  rw [readyNow, hown, hown, woken, applyWake_ready, applyWake_ready]

/-- An allocation reaches its own slot only. -/
theorem foldl_allocate_of_ne (l : List (BitVec 3 × AllocPort)) {t : BitVec 3}
    (ht : t ∉ l.map Prod.fst) : (l.foldl State.allocate st).ready t = st.ready t ∧
      (l.foldl State.allocate st).values t = st.values t := by
  induction l generalizing st with
  | nil => exact ⟨rfl, rfl⟩
  | cons a l ih =>
    rw [List.map_cons, List.mem_cons, not_or] at ht
    obtain ⟨hr, hv⟩ := @ih (st.allocate a) ht.2
    refine ⟨hr.trans (Function.update_of_ne ht.1 _ _), hv.trans ?_⟩
    show (if a.2.valueValid then Function.update st.values a.1 a.2.value else st.values) t = _
    split_ifs
    · exact Function.update_of_ne ht.1 _ _
    · rfl

/-- The slot of an allocation is ready when it brings its value. -/
theorem foldl_allocate_of_mem (l : List (BitVec 3 × AllocPort)) (hnd : (l.map Prod.fst).Nodup)
    {a : BitVec 3 × AllocPort} (ha : a ∈ l) :
    (l.foldl State.allocate st).ready a.1 = a.2.valueValid ∧
      (a.2.valueValid = true → (l.foldl State.allocate st).values a.1 = a.2.value) := by
  induction l generalizing st with
  | nil => exact absurd ha List.not_mem_nil
  | cons b l ih =>
    rw [List.map_cons, List.nodup_cons] at hnd
    rcases List.mem_cons.1 ha with rfl | hin
    · obtain ⟨hr, hv⟩ := @foldl_allocate_of_ne (st.allocate a) l a.1 hnd.1
      refine ⟨hr.trans (Function.update_self _ _ _), fun hval => hv.trans ?_⟩
      show (if a.2.valueValid then Function.update st.values a.1 a.2.value else st.values) a.1 = _
      rw [if_pos hval, Function.update_self]
    · exact ih hnd.2 hin

end Wakes

/-! ## The slots of the entries that stay -/

section Staying

variable {cfg : Completion.Config} {s : System} {i : Input}

theorem mem_writes_of_staying {e : Entry} (he : e ∈ staying cfg s i) {w : Write}
    (hw : w ∈ entryWrites e) : w ∈ writes s.cq :=
  List.mem_flatMap.2 ⟨e, mem_of_mem_staying he, hw⟩

/-- The slot of a write that stays is not allocated on the edge. -/
theorem slot_not_fired (hI : SlotInv s) (h : Legal cfg s i) {w : Write}
    (hw : w ∈ writes s.cq) :
    w.slot ∉ (fired s.rename (renamePort cfg s i)).map Prod.fst := by
  intro hin
  obtain ⟨a, ha, heq⟩ := List.mem_map.1 hin
  have hfree := (mem_freeSlots.1 ((fired_slots h).2 a ha)).2
  have hused : s.rename.valid w.slot = true :=
    (hI.holds.valid w.slot).2 (List.mem_map_of_mem hw)
  rw [heq, hused] at hfree
  cases hfree

/-- Nor is it released. -/
theorem slot_not_released (hI : SlotInv s) (h : Legal cfg s i) {e : Entry}
    (he : e ∈ staying cfg s i) {w : Write} (hw : w ∈ entryWrites e) :
    (released s.rename (renamePort cfg s i)).any (fun p => p.tag = w.slot) = false := by
  rw [← Bool.not_eq_true, List.any_eq_true]
  rintro ⟨p, hp, htag⟩
  obtain ⟨v, hv, -, hslot⟩ := (released_iff hI h p.reg p.tag).1 ⟨p, hp, rfl, rfl⟩
  rw [decide_eq_true_eq] at htag
  have hnd := hI.holds.nodup
  rw [writes_split hI.ring h, List.map_append, List.map_append] at hnd
  refine List.disjoint_of_nodup_append hnd (List.mem_map_of_mem hv) ?_
  rw [hslot, htag]
  exact List.mem_append_left _ (List.mem_map_of_mem (List.mem_flatMap.2 ⟨e, he, hw⟩))

/-- **An edge moves no slot of an entry that stays but by a wake.** -/
theorem ready_staying (hI : SlotInv s) (h : Legal cfg s i) (hclean : KeepsClean cfg s i)
    {e : Entry} (he : e ∈ staying cfg s i) {w : Write} (hw : w ∈ entryWrites e) :
    (System.step cfg s i).rename.ready w.slot =
      ((woken s.rename (renamePort cfg s i)).ready w.slot ||
        (Completion.redirectAccepted cfg s.cq (cqPorts s i) && w.update)) := by
  have hrst : (renamePort cfg s i).rstN = true := h.queue.running
  show (Rename.step s.rename (renamePort cfg s i)).ready w.slot = _
  rw [Rename.step, hrst]
  have hin := mem_writes_of_staying he hw
  cases hacc : Completion.redirectAccepted cfg s.cq (cqPorts s i) with
  | true =>
    have hrec : (renamePort cfg s i).recovery = true := hacc
    rw [hrec, if_neg (by simp), if_pos rfl]
    obtain ⟨goneP, stayP, hputs, hgone, hstay, hmap, hready⟩ := recovery_puts hI h hacc hclean
    have hwin : w ∈ stayP.map Put.write := by
      rw [hmap]
      exact List.mem_flatMap.2 ⟨e, he, hw⟩
    obtain ⟨p, hp, rfl⟩ := List.mem_map.1 hwin
    -- the slots of the puts are distinct, so `p` is the last put of its slot
    have hlast : lastAt (fun p : Put => p.write.slot) p.write.slot stayP = some p := by
      have hnd : (stayP.map fun p : Put => p.write.slot).Nodup := by
        have hsub := hI.holds.nodup.sublist ((staying_sublist hI.ring h).map Write.slot)
        rw [← hmap, List.map_map] at hsub
        exact hsub
      cases hl : lastAt (fun p : Put => p.write.slot) p.write.slot stayP with
      | none => exact absurd rfl (Clocked.lastAt_eq_none_iff.1 hl p hp)
      | some q =>
        have hslot : q.write.slot = p.write.slot :=
          @Clocked.idx_of_lastAt _ _ _ (fun p : Put => p.write.slot) _ _ _ hl
        rw [List.inj_on_of_nodup_map hnd (Clocked.mem_of_lastAt hl) hp hslot]
    rw [(recovered_spec hputs hgone hstay).2.1 _ _ hlast, hready p hp,
      readyNow_eq (hI.holds.owner _ hin), Bool.true_and, Bool.or_comm]
  | false =>
    have hrec : (renamePort cfg s i).recovery = false := hacc
    rw [hrec, if_neg (by simp), if_neg (by simp),
      (foldl_allocate_of_ne _ (slot_not_fired hI h hin)).1]
    show ((woken s.rename (renamePort cfg s i)).ready w.slot && !_) = _
    rw [slot_not_released hI h he hw]
    simp

theorem values_staying (hI : SlotInv s) (h : Legal cfg s i) {e : Entry}
    (he : e ∈ staying cfg s i) {w : Write} (hw : w ∈ entryWrites e) :
    (System.step cfg s i).rename.values w.slot =
      (woken s.rename (renamePort cfg s i)).values w.slot := by
  have hrst : (renamePort cfg s i).rstN = true := h.queue.running
  show (Rename.step s.rename (renamePort cfg s i)).values w.slot = _
  rw [Rename.step, hrst, if_neg (by simp)]
  split_ifs
  · rfl
  · rw [(foldl_allocate_of_ne _ (slot_not_fired hI h (mem_writes_of_staying he hw))).2]
    rfl

end Staying

/-! ## What a finish makes of an entry -/

section Finishes

variable {cfg : Completion.Config} {s : System} {i : Input}

theorem main_mem {e : Entry} (h : e.packet.renameOwned = true) :
    (⟨e.packet.gpr, e.packet.tag, e.tag, false⟩ : Write) ∈ entryWrites e := by
  rw [entryWrites, if_pos h]
  exact List.mem_append_left _ (List.mem_singleton.2 rfl)

theorem base_mem {e : Entry} (h : e.packet.updateOwned = true) :
    (⟨e.packet.updateGpr, e.packet.updateTag, e.tag, true⟩ : Write) ∈ entryWrites e := by
  rw [entryWrites, if_pos h]
  exact List.mem_append_right _ (List.mem_singleton.2 rfl)

/-- An entry is what the queue's registers hold at its index. -/
theorem registers_of_mem {e : Entry} (he : e ∈ entries s.cq) :
    s.cq.packets e.tag.index = e.packet ∧ s.cq.done e.tag.index = e.done := by
  obtain ⟨k, -, rfl⟩ := Completion.mem_entries.1 he
  exact ⟨rfl, rfl⟩

/-- **A wake names the destination of its producer.** -/
theorem wake_names (hI : SlotInv s) {w₀ : Wake}
    (hgpr : w₀.valid = true → (s.cq.packets w₀.producer.index).gprWrite = true)
    (htag : w₀.tag = (s.cq.packets w₀.producer.index).tag)
    (hm : wakeMatch s.rename w₀ = true) {e : Entry} (he : e ∈ entries s.cq) {w : Write}
    (hw : w ∈ entryWrites e) (hslot : w₀.tag = w.slot) :
    w₀.producer = e.tag ∧ e.packet.gprWrite = true ∧ w.update = false := by
  obtain ⟨hvalid, howner⟩ := wakeMatch_spec hm
  have hin : w ∈ writes s.cq := List.mem_flatMap.2 ⟨e, he, hw⟩
  have hprod : w.producer = e.tag := by
    rcases List.mem_append.1 hw with h0 | h1
    · split_ifs at h0
      · rw [List.mem_singleton.1 h0]
      · exact absurd h0 List.not_mem_nil
    · split_ifs at h1
      · rw [List.mem_singleton.1 h1]
      · exact absurd h1 List.not_mem_nil
  have hsame : w₀.producer = e.tag := by
    rw [← howner, hslot, hI.holds.owner w hin, hprod]
  have hpacket := (registers_of_mem he).1
  have hwrite := hgpr hvalid
  rw [hsame, hpacket] at hwrite htag
  have hmain := main_mem ((hI.packets e he).gpr hwrite)
  have heq := hI.holds.eq_of_slot (List.mem_flatMap.2 ⟨e, he, hmain⟩) hin (htag.symm.trans hslot)
  exact ⟨hsame, hwrite, by rw [← heq]⟩

/-- A finish leaves an entry the slots it holds and their registers. -/
theorem settle_slots (e : Entry) :
    (Completion.settle cfg s.cq (cqPorts s i) e).packet.renameOwned = e.packet.renameOwned ∧
      (Completion.settle cfg s.cq (cqPorts s i) e).packet.tag = e.packet.tag ∧
      (Completion.settle cfg s.cq (cqPorts s i) e).packet.updateOwned = e.packet.updateOwned ∧
      (Completion.settle cfg s.cq (cqPorts s i) e).packet.updateTag = e.packet.updateTag := by
  simp only [Completion.settle, Completion.finishedPacket, Completion.finishInto]
  split_ifs <;> exact ⟨rfl, rfl, rfl, rfl⟩

/-- No finish reaches an entry that has finished. -/
theorem settle_of_done {e : Entry} (he : e ∈ entries s.cq) (hdone : e.done = true) :
    Completion.settle cfg s.cq (cqPorts s i) e = e := by
  have hno : ∀ {valid : Bool} {r : ResultPacket},
      Completion.finishOwner cfg s.cq (cqPorts s i) valid r = true → r.producer ≠ e.tag := by
    intro valid r hacc heq
    have hopen := (Completion.finishOwner_spec hacc).2.2.2.1
    rw [heq, (registers_of_mem he).2, hdone] at hopen
    cases hopen
  have h0 := fun hacc : Completion.finishAccept cfg s.cq (cqPorts s i) = true => hno hacc
  have h1 := fun hacc : Completion.finish1Accept cfg s.cq (cqPorts s i) = true => hno hacc
  have h2 := fun hacc : Completion.finish2Accept cfg s.cq (cqPorts s i) = true => hno hacc
  rw [Completion.settle, Completion.finishedPacket, if_neg fun h => h2 h.1 h.2,
    if_neg fun h => h1 h.1 h.2, if_neg fun h => h0 h.1 h.2, hdone, Bool.true_or, ← hdone]

/-- A wake on the first port is a clean finish of its entry. -/
theorem settle_of_wake (h : Legal cfg s i) {e : Entry} (he : e ∈ entries s.cq)
    (hgpr : e.packet.gprWrite = true) (hv : (wakeO cfg s i).valid = true)
    (hprod : i.cq.result.producer = e.tag) :
    (Completion.settle cfg s.cq (cqPorts s i) e).done = true ∧
      (Completion.settle cfg s.cq (cqPorts s i) e).packet.gprWrite = true ∧
      (Completion.settle cfg s.cq (cqPorts s i) e).packet.value = i.cq.result.value := by
  simp only [wakeO, Bool.and_eq_true, Bool.not_eq_true', decide_eq_true_eq] at hv
  obtain ⟨⟨⟨hacc, -⟩, hfault⟩, hdata⟩ := hv
  have hclean : Completion.resultFault cfg (cqPorts s i) = false := by
    show Completion.isFault cfg i.cq.result = false
    simp [Completion.isFault, hfault, hdata]
  have h2 : ¬ (Completion.finish2Accept cfg s.cq (cqPorts s i) = true ∧
      (cqPorts s i).result2.producer = e.tag) := by
    rintro ⟨hacc2, hprod2⟩
    rw [(h.port2 e he hacc2 hprod2).1] at hgpr
    cases hgpr
  have h1 : ¬ (Completion.finish1Accept cfg s.cq (cqPorts s i) = true ∧
      (cqPorts s i).result1.producer = e.tag) := by
    rintro ⟨hacc1, hprod1⟩
    exact h.shared1 (Completion.finishOwner_spec hacc).1 (Completion.finishOwner_spec hacc1).1
      (hprod.trans hprod1.symm)
  have hfin : Completion.finishes cfg s.cq (cqPorts s i) e = true := by
    have hsame : (cqPorts s i).result.producer = e.tag := hprod
    simp [Completion.finishes, hacc, hsame]
  rw [Completion.settle, Completion.finishedPacket, if_neg h2, if_neg h1, if_pos ⟨hacc, hprod⟩,
    Completion.finishInto, hclean, if_neg Bool.false_ne_true, hfin, Bool.or_true]
  exact ⟨rfl, hgpr, rfl⟩

/-- And so is one on the second. -/
theorem settle_of_wake1 (h : Legal cfg s i) {e : Entry} (he : e ∈ entries s.cq)
    (hgpr : e.packet.gprWrite = true) (hv : (wake1O cfg s i).valid = true)
    (hprod : i.cq.result1.producer = e.tag) :
    (Completion.settle cfg s.cq (cqPorts s i) e).done = true ∧
      (Completion.settle cfg s.cq (cqPorts s i) e).packet.gprWrite = true ∧
      (Completion.settle cfg s.cq (cqPorts s i) e).packet.value = i.cq.result1.value := by
  simp only [wake1O, Bool.and_eq_true] at hv
  have h2 : ¬ (Completion.finish2Accept cfg s.cq (cqPorts s i) = true ∧
      (cqPorts s i).result2.producer = e.tag) := by
    rintro ⟨hacc2, hprod2⟩
    rw [(h.port2 e he hacc2 hprod2).1] at hgpr
    cases hgpr
  have hfin : Completion.finishes cfg s.cq (cqPorts s i) e = true := by
    have hsame : (cqPorts s i).result1.producer = e.tag := hprod
    simp [Completion.finishes, hv.1, hsame]
  rw [Completion.settle, Completion.finishedPacket, if_neg h2, if_pos ⟨hv.1, hprod⟩, hfin,
    Bool.or_true]
  exact ⟨rfl, hgpr, rfl⟩

/-- A base that is still to be written is the one the entry was given. -/
theorem updateValue_settle (h : Legal cfg s i) {e : Entry} (he : e ∈ entries s.cq)
    (hown : e.packet.updateOwned = true)
    (hw : (Completion.settle cfg s.cq (cqPorts s i) e).packet.updateWrite = true) :
    e.packet.updateWrite = true ∧
      (Completion.settle cfg s.cq (cqPorts s i) e).packet.updateValue =
        e.packet.updateValue := by
  have hport1 := h.port1 e he
  have hport2 := fun ha hp => (h.port2 e he ha hp).2
  have hbase := h.base e he
  revert hw
  simp only [Completion.settle, Completion.finishedPacket, Completion.finishInto]
  split_ifs with h2 hf2 h1 h0 hf0
  · rintro ⟨⟩
  · intro hw
    have hkeep : e.packet.updateWrite = true := hw
    rw [hport2 h2.1 h2.2] at hkeep
    cases hkeep
  · intro hw
    have hkeep : e.packet.updateWrite = true := hw
    rw [hport1 h1.1 h1.2] at hkeep
    cases hkeep
  · rintro ⟨⟩
  · intro hw
    have hkeep : e.packet.updateWrite = true := hw
    refine ⟨hkeep, ?_⟩
    show (if e.packet.updateWrite = true then i.cq.result.updateValue else 0) = _
    rw [if_pos hkeep]
    exact hbase h0.1 h0.2 hown
  · exact fun hw => ⟨hw, rfl⟩

end Finishes

/-! ## One edge -/

section Edge

variable {cfg : Completion.Config} {s : System} {i : Input}

@[simp] theorem renamePort_wake : (renamePort cfg s i).wake = wakeO cfg s i := rfl

@[simp] theorem renamePort_wake1 : (renamePort cfg s i).wake1 = wake1O cfg s i := rfl

/-- The wake of the first port, on the slots of an entry. -/
theorem wake_names0 (hI : SlotInv s)
    (hm : wakeMatch s.rename (wakeO cfg s i) = true) {e : Entry} (he : e ∈ entries s.cq)
    {w : Write} (hw : w ∈ entryWrites e) (hslot : (wakeO cfg s i).tag = w.slot) :
    i.cq.result.producer = e.tag ∧ e.packet.gprWrite = true ∧ w.update = false := by
  refine wake_names hI ?_ rfl hm he hw hslot
  intro hv
  simp only [wakeO, Bool.and_eq_true] at hv
  exact hv.1.1.2

/-- The wake of the second. -/
theorem wake_names1 (hI : SlotInv s)
    (hm : wakeMatch s.rename (wake1O cfg s i) = true) {e : Entry} (he : e ∈ entries s.cq)
    {w : Write} (hw : w ∈ entryWrites e) (hslot : (wake1O cfg s i).tag = w.slot) :
    i.cq.result1.producer = e.tag ∧ e.packet.gprWrite = true ∧ w.update = false := by
  refine wake_names hI ?_ rfl hm he hw hslot
  intro hv
  simp only [wake1O, Bool.and_eq_true] at hv
  exact hv.2

/-- The slots of an entry after the wakes hold what the finishes make of it. -/
theorem valueOk_woken (hI : SlotInv s) (h : Legal cfg s i) {e : Entry} (he : e ∈ entries s.cq)
    (hv : ValueOk s.rename e) :
    ValueOk (woken s.rename (renamePort cfg s i))
      (Completion.settle cfg s.cq (cqPorts s i) e) := by
  obtain ⟨hown, htag, hup, huptag⟩ := @settle_slots cfg s i e
  constructor
  · rw [hown, htag, woken_values, woken_ready, renamePort_wake, renamePort_wake1]
    intro howned hready
    have hmain := main_mem howned
    by_cases h1 : wakeMatch s.rename (wake1O cfg s i) = true ∧
        (wake1O cfg s i).tag = e.packet.tag
    · obtain ⟨hprod, hgpr, -⟩ := wake_names1 hI h1.1 he hmain h1.2
      have hset := settle_of_wake1 h he hgpr (wakeMatch_spec h1.1).1 hprod
      rw [if_pos h1]
      exact ⟨hset.1, hset.2.1, hset.2.2.symm⟩
    by_cases h0 : wakeMatch s.rename (wakeO cfg s i) = true ∧ (wakeO cfg s i).tag = e.packet.tag
    · obtain ⟨hprod, hgpr, -⟩ := wake_names0 hI h0.1 he hmain h0.2
      have hset := settle_of_wake h he hgpr (wakeMatch_spec h0.1).1 hprod
      rw [if_neg h1, if_pos h0]
      exact ⟨hset.1, hset.2.1, hset.2.2.symm⟩
    rw [if_neg h1, if_neg h0]
    rcases hready with hready | hready | hready
    · obtain ⟨hdone, hgpr, hval⟩ := hv.main howned hready
      rw [settle_of_done he hdone]
      exact ⟨hdone, hgpr, hval⟩
    · exact absurd hready h0
    · exact absurd hready h1
  · rw [hup, huptag, woken_values, woken_ready, renamePort_wake, renamePort_wake1]
    intro howned
    have hbase := base_mem howned
    obtain ⟨hready, hval⟩ := hv.base howned
    -- a wake names a destination, never a base
    have h1 : ¬ (wakeMatch s.rename (wake1O cfg s i) = true ∧
        (wake1O cfg s i).tag = e.packet.updateTag) := fun hw =>
      absurd (wake_names1 hI hw.1 he hbase hw.2).2.2 (by simp)
    have h0 : ¬ (wakeMatch s.rename (wakeO cfg s i) = true ∧
        (wakeO cfg s i).tag = e.packet.updateTag) := fun hw =>
      absurd (wake_names0 hI hw.1 he hbase hw.2).2.2 (by simp)
    rw [if_neg h1, if_neg h0]
    refine ⟨Or.inl hready, ?_⟩
    intro hw
    obtain ⟨hkeep, heq⟩ := updateValue_settle h he howned hw
    rw [heq]
    exact hval hkeep

/-- **An entry that stays keeps its values.** -/
theorem valueOk_staying (hI : SlotInv s) (h : Legal cfg s i) (hclean : KeepsClean cfg s i)
    {e : Entry} (he : e ∈ staying cfg s i) (hv : ValueOk s.rename e) :
    ValueOk (System.step cfg s i).rename (Completion.settle cfg s.cq (cqPorts s i) e) := by
  obtain ⟨hown, htag, hup, huptag⟩ := @settle_slots cfg s i e
  have hwoken := valueOk_woken hI h (mem_of_mem_staying he) hv
  constructor
  · intro howned hready
    have hmain := main_mem (hown.symm.trans howned)
    rw [htag] at hready ⊢
    have hr := ready_staying hI h hclean he hmain
    rw [hr, Bool.and_false, Bool.or_false] at hready
    have hw := hwoken.main howned (by rw [htag]; exact hready)
    rw [htag] at hw
    rw [values_staying hI h he hmain]
    exact hw
  · intro howned
    have hbase := base_mem (hup.symm.trans howned)
    obtain ⟨hready, hval⟩ := hwoken.base howned
    rw [huptag] at hready hval ⊢
    rw [ready_staying hI h hclean he hbase, hready, Bool.true_or]
    refine ⟨rfl, ?_⟩
    intro hw
    rw [values_staying hI h he hbase]
    exact hval hw

/-- Only an update form's base is allocated with its value. -/
theorem fired_value (h : Legal cfg s i) :
    ∀ a ∈ fired s.rename (renamePort cfg s i), a.2.valueValid = true →
      a.2.value = i.cq.alloc.updateValue := by
  intro a ha hv
  rw [fired_eq h] at ha
  simp only [List.mem_append] at ha
  rcases ha with (ha | ha) | ha
  · split_ifs at ha
    · rw [List.mem_singleton.1 ha]
      rfl
    · exact absurd ha List.not_mem_nil
  · split_ifs at ha
    · rw [List.mem_singleton.1 ha]
      rfl
    · exact absurd ha List.not_mem_nil
  · split_ifs at ha
    · rw [List.mem_singleton.1 ha] at hv
      cases hv
    · exact absurd ha List.not_mem_nil

/-- The slots of a fresh write: a base brings its value, a destination none. -/
theorem slot_fresh (h : Legal cfg s i) {e : Entry}
    (he : e ∈ Completion.freshEntries cfg s.cq (cqPorts s i)) {w : Write}
    (hw : w ∈ entryWrites e) : (System.step cfg s i).rename.ready w.slot = w.update ∧
      (w.update = true →
        (System.step cfg s i).rename.values w.slot = i.cq.alloc.updateValue) := by
  have hin : w ∈ (fired s.rename (renamePort cfg s i)).map portWrite := by
    rw [← fresh_writes h]
    exact List.mem_flatMap.2 ⟨e, he, hw⟩
  obtain ⟨a, ha, rfl⟩ := List.mem_map.1 hin
  have hrst : (renamePort cfg s i).rstN = true := h.queue.running
  have hrec : (renamePort cfg s i).recovery = false := by
    by_contra hacc
    rw [Bool.not_eq_false] at hacc
    rw [fired_of_recovery hacc] at ha
    exact absurd ha List.not_mem_nil
  obtain ⟨hready, hval⟩ := @foldl_allocate_of_mem
    (freed s.rename (renamePort cfg s i) (woken s.rename (renamePort cfg s i))) _
    (fired_slots h).1 a ha
  show (Rename.step s.rename (renamePort cfg s i)).ready a.1 = a.2.valueValid ∧
    (a.2.valueValid = true → (Rename.step s.rename (renamePort cfg s i)).values a.1 = _)
  rw [Rename.step, hrst, hrec]
  exact ⟨hready, fun hv => (hval hv).trans (fired_value h a ha hv)⟩

/-- **A fresh entry's base is ready and its destination is not.** -/
theorem valueOk_fresh (h : Legal cfg s i) :
    ∀ e ∈ Completion.freshEntries cfg s.cq (cqPorts s i),
      ValueOk (System.step cfg s i).rename e := by
  intro e he
  constructor
  · intro howned hready
    rw [(slot_fresh h he (main_mem howned)).1] at hready
    cases hready
  · intro howned
    obtain ⟨hready, hval⟩ := slot_fresh h he (base_mem howned)
    refine ⟨hready, fun _ => (hval rfl).trans ?_⟩
    rcases List.mem_append.1 he with h0 | h1
    · split_ifs at h0
      · rw [List.mem_singleton] at h0
        subst h0
        have hup : (allocation s i).updateOwned = true := howned
        show _ = (if (allocation s i).updateOwned then _ else 0)
        rw [if_pos hup]
        rfl
      · exact absurd h0 List.not_mem_nil
    · split_ifs at h1
      · rw [List.mem_singleton] at h1
        subst h1
        cases howned
      · exact absurd h1 List.not_mem_nil

/-- **The values over one edge.** -/
theorem values_step (hI : SlotInv s) (h : Legal cfg s i) (hclean : KeepsClean cfg s i)
    (hv : ∀ e ∈ entries s.cq, ValueOk s.rename e) :
    ∀ e ∈ entries (System.step cfg s i).cq, ValueOk (System.step cfg s i).rename e := by
  intro e he
  rw [entries_step hI.ring h] at he
  rcases List.mem_append.1 he with hold | hnew
  · obtain ⟨e, hmem, rfl⟩ := List.mem_map.1 hold
    exact valueOk_staying hI h hclean hmem (hv e (mem_of_mem_staying hmem))
  · exact valueOk_fresh h e hnew

end Edge

end Rename
end SloPPC603
