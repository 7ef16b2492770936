import Mathlib.Data.List.Range
import Mathlib.Data.List.Intervals
import SloPPC603.Clocked.OrderedQueue
import SloPPC603.Completion.RingInv

/-!
# The completion queue as a list in program order

Beside a run of the completion queue stands a `Ledger` that reads the module's
ports and is read by nothing: it numbers the allocations in the order the module
takes them, notes the tag answered to each, and collects the numbers that leave
by `retire_o`, by `retire1_o` and by `redirect_kill_o`.  `queue` puts the ledger
and the ring together as a `Clocked.OrderedQueue` of allocation numbers, and
`queue_step` says one edge of the module is one edge of that queue.

* `queue_step` — the refinement of one edge.
* `Tagged`, `tagged_step` — a slot's tag is the one its holder was answered with.
* `refines_orderedQueue` — the whole run.
-/

namespace SloPPC603
namespace Completion

open Clocked

/-! ## The ledger -/

/-- What the ports have said since the start of the run. -/
structure Ledger where
  /-- The number of the allocation each slot took last. -/
  owner : ℕ → ℕ
  /-- The tag answered to each allocation, in order. -/
  issued : List CompletionTag
  /-- The retirements in order: the entry's number and the tag it retired under. -/
  retired : List (ℕ × CompletionTag)
  /-- The numbers of the entries recoveries removed. -/
  removed : List ℕ

/-- Nothing has been allocated. -/
def Ledger.start : Ledger := ⟨fun _ => 0, [], [], []⟩

section Update

variable (cfg : Config) (s : State) (i : Input) (l : Ledger)

/-- The tags answered on this edge, lane 0's first. -/
def allocatedTags : List CompletionTag :=
  (if allocFire cfg s i then [allocTag s] else []) ++
    (if alloc1Fire cfg s i then [alloc1Tag s i] else [])

/-- The tags that retire on this edge, the head's first. -/
def retiredTags : List CompletionTag :=
  (if retireFire cfg s i then [retireTag s] else []) ++
    (if retire1Fire cfg s i then [retire1Tag s] else [])

/-- The slots from the head round the ring. -/
def ringSlots : List ℕ := (List.range cqDepth).map (Ring.offset cqDepth s.head)

/-- The holder of each slot after this edge. -/
def nextOwner (slot : ℕ) : ℕ :=
  if alloc1Fire cfg s i ∧ slot = (alloc1Tag s i).index then
    l.issued.length + (allocFire cfg s i).toNat
  else if allocFire cfg s i ∧ slot = (allocTag s).index then l.issued.length
  else l.owner slot

/-- The ledger after this edge. -/
def Ledger.update (cfg : Config) (l : Ledger) (s : State) (i : Input) : Ledger where
  owner := nextOwner cfg s i l
  issued := l.issued ++ allocatedTags cfg s i
  retired := l.retired ++ (retiredTags cfg s i).map (fun tag => (l.owner tag.index, tag))
  removed := l.removed ++ ((ringSlots s).filter (redirectKill cfg s i)).map l.owner

end Update

/-- The ring and its ledger as a queue of allocation numbers. -/
def queue (s : State) (l : Ledger) : OrderedQueue ℕ where
  pushed := List.range l.issued.length
  live := (List.range s.count).map (fun k => l.owner (Ring.offset cqDepth s.head k))
  retired := l.retired.map Prod.fst
  removed := l.removed

/-- A slot in use and a retired entry carry the tag answered at allocation. -/
structure Tagged (s : State) (l : Ledger) : Prop where
  live : ∀ k < s.count, l.issued[l.owner (Ring.offset cqDepth s.head k)]? =
    some ⟨Ring.offset cqDepth s.head k, s.generations (Ring.offset cqDepth s.head k)⟩
  retired : ∀ e ∈ l.retired, l.issued[e.1]? = some e.2

/-! ## One edge -/

section Edge

variable {cfg : Config} {s : State} {i : Input} {l : Ledger}

/-- The numbers allocated on this edge. -/
def freshNumbers (cfg : Config) (s : State) (i : Input) (l : Ledger) : List ℕ :=
  List.range' l.issued.length (pushes cfg s i)

theorem allocatedTags_length : (allocatedTags cfg s i).length = pushes cfg s i := by
  unfold allocatedTags pushes
  cases allocFire cfg s i <;> cases alloc1Fire cfg s i <;> rfl

theorem retireTag_eq (hs : RingInv s) (h : retireFire cfg s i = true) :
    retireTag s = ⟨s.head, s.generations s.head⟩ := by
  have hc := retireFire_count h
  simp [retireTag, hc, hs.active_head hc]

theorem retire1Tag_eq (hs : RingInv s) (h : retire1Fire cfg s i = true) :
    retire1Tag s = ⟨s.head1, s.generations s.head1⟩ := by
  have hc := (retire1Fire_spec h).2.2.2
  simp [retire1Tag, hc, hs.active_head1 hc]

/-- The retiring tags are those of the first `pops` slots. -/
theorem retiredTags_eq (hs : RingInv s) : retiredTags cfg s i =
    (List.range (pops cfg s i)).map (fun k => CompletionTag.mk (Ring.offset cqDepth s.head k)
      (s.generations (Ring.offset cqDepth s.head k))) := by
  have h0 := Ring.offset_zero hs.head_lt
  have h1 := hs.head1_eq_offset
  unfold retiredTags pops
  cases hf1 : retire1Fire cfg s i with
  | true =>
    have hf := retireFire_of_retire1Fire hf1
    simp [hf, List.range_succ, h0, ← h1, retireTag_eq hs hf, retire1Tag_eq hs hf1]
  | false =>
    cases hf : retireFire cfg s i with
    | true => simp [h0, retireTag_eq hs hf]
    | false => simp

variable (hs : RingInv s) (hi : LegalInput cfg s i)
include hs hi

omit hi in
/-- `redirect_kill_o` names the slots from the `kept`th on. -/
theorem redirectKill_offset {k : ℕ} (hk : k < cqDepth) :
    redirectKill cfg s i (Ring.offset cqDepth s.head k) = true ↔
      kept cfg s i ≤ k ∧ k < s.count := by
  have hslot := Ring.offset_lt hs.head_lt hk.le
  rw [redirectKill_iff hs hslot, Ring.age_offset hs.head_lt hk, kept]
  cases redirectAccepted cfg s i with
  | true => simp [and_comm]
  | false =>
    simp only [Bool.false_eq_true, false_and, if_false, false_iff]
    omega

omit hi in
/-- The slots `redirect_kill_o` names, in ring order. -/
theorem killedSlots_eq : (ringSlots s).filter (redirectKill cfg s i) =
    (List.Ico (kept cfg s i) s.count).map (Ring.offset cqDepth s.head) := by
  have hkill : ∀ k ∈ List.range cqDepth,
      redirectKill cfg s i (Ring.offset cqDepth s.head k) =
        (decide (k < s.count) && decide (kept cfg s i ≤ k)) := by
    intro k hk
    rw [Bool.eq_iff_iff, redirectKill_offset hs (List.mem_range.1 hk), Bool.and_eq_true,
      decide_eq_true_eq, decide_eq_true_eq, and_comm]
  have hcount : min cqDepth s.count = s.count := Nat.min_eq_right hs.count_le
  rw [ringSlots, List.filter_map]
  congr 1
  calc (List.range cqDepth).filter (redirectKill cfg s i ∘ Ring.offset cqDepth s.head)
      = (List.range cqDepth).filter
          (fun k => decide (k < s.count) && decide (kept cfg s i ≤ k)) := List.filter_congr hkill
    _ = ((List.Ico 0 cqDepth).filter (fun k => kept cfg s i ≤ k)).filter
          (fun k => k < s.count) := by rw [List.filter_filter, List.Ico.zero_bot]
    _ = List.Ico (kept cfg s i) s.count := by
      rw [List.Ico.filter_le, Nat.zero_max, List.Ico.filter_lt, hcount]

/-- Neither lane allocates into a kept slot. -/
theorem not_allocated_of_kept {k : ℕ} (hk : k < kept cfg s i) :
    ¬ (alloc1Fire cfg s i = true ∧ Ring.offset cqDepth s.head k = (alloc1Tag s i).index) ∧
      ¬ (allocFire cfg s i = true ∧ Ring.offset cqDepth s.head k = s.tail) := by
  have hle : kept cfg s i ≤ s.count := kept_le
  have hlt : k < cqDepth := by
    have := hs.count_le
    omega
  have hfresh := allocated_iff hs hi (Ring.offset_lt hs.head_lt hlt.le)
  rw [Ring.age_offset hs.head_lt hlt] at hfresh
  exact not_or.1 (mt hfresh.1 (by omega))

/-- A kept slot keeps its holder. -/
theorem nextOwner_kept {k : ℕ} (hk : k < kept cfg s i) :
    nextOwner cfg s i l (Ring.offset cqDepth s.head k) =
      l.owner (Ring.offset cqDepth s.head k) := by
  have hno := not_allocated_of_kept hs hi hk
  rw [nextOwner, if_neg hno.1]
  exact if_neg hno.2

omit hs hi in
/-- On an edge that allocates, nothing is removed. -/
theorem kept_of_pushes (h : 0 < pushes cfg s i) : kept cfg s i = s.count := by
  cases hacc : redirectAccepted cfg s i with
  | true =>
    rw [pushes_of_accepted hacc] at h
    exact absurd h (lt_irrefl _)
  | false => simp [kept, hacc]

/-- The `j`th slot allocated on this edge is held by the `j`th fresh number. -/
theorem nextOwner_fresh {j : ℕ} (hj : j < pushes cfg s i) :
    nextOwner cfg s i l (Ring.offset cqDepth s.head (s.count + j)) = l.issued.length + j := by
  have hidx1 := @alloc1Index_eq cfg s i hs hi
  have hlt1 := @alloc1Count_lt cfg s i hi
  have hlt0 := @allocCount_lt cfg s i
  have hidx0 : (allocTag s).index = Ring.offset cqDepth s.head s.count := hs.tail_eq
  unfold nextOwner pushes at *
  cases h0 : allocFire cfg s i <;> cases h1 : alloc1Fire cfg s i <;>
    simp only [h0, h1, Bool.toNat_true, Bool.toNat_false, forall_const, true_and, false_and,
      if_false, Bool.false_eq_true, Nat.add_zero, IsEmpty.forall_iff] at hj hidx1 hlt1 hlt0 ⊢
  · omega
  · obtain rfl : j = 0 := by omega
    rw [Nat.add_zero, hidx1, if_pos rfl, Nat.add_zero]
  · obtain rfl : j = 0 := by omega
    rw [Nat.add_zero, hidx0, if_pos rfl, Nat.add_zero]
  · obtain rfl | rfl : j = 0 ∨ j = 1 := by omega
    · rw [Nat.add_zero, hidx1, hidx0, if_neg, if_pos rfl, Nat.add_zero]
      · rw [Ring.offset_inj hs.head_lt (by omega) (by omega)]
        omega
    · rw [hidx1, if_pos rfl]

variable (hpop : pops cfg s i ≤ kept cfg s i)
include hpop

/-- What the ring holds after the edge. -/
theorem live_step : (queue (step cfg s i) (l.update cfg s i)).live =
    ((queue s l).live.take (kept cfg s i)).drop (pops cfg s i) ++ freshNumbers cfg s i l := by
  have hfull := kept_add_pushes_le hs hi
  have hle : kept cfg s i ≤ s.count := kept_le
  have hcount : (step cfg s i).count = kept cfg s i + pushes cfg s i - pops cfg s i := by
    rw [step_count hi.running, nextCount_eq hpop hs hi]
  have hhead : (step cfg s i).head = Ring.offset cqDepth s.head (pops cfg s i) := by
    rw [step_head hi.running, nextHead_eq hs]
  apply List.ext_getElem
  · simp only [queue, freshNumbers, List.length_map, List.length_range, List.length_append,
      List.length_drop, List.length_take, List.length_range', hcount]
    omega
  intro k hk hk'
  have hkc : k < kept cfg s i + pushes cfg s i - pops cfg s i := by
    simpa [queue, hcount] using hk
  have hlen : (((queue s l).live.take (kept cfg s i)).drop (pops cfg s i)).length =
      kept cfg s i - pops cfg s i := by
    simp only [queue, List.length_drop, List.length_take, List.length_map, List.length_range]
    omega
  have hnew : (queue (step cfg s i) (l.update cfg s i)).live[k] =
      nextOwner cfg s i l (Ring.offset cqDepth s.head (pops cfg s i + k)) := by
    simp only [queue, List.getElem_map, List.getElem_range, hhead, Ledger.update]
    rw [Ring.offset_offset hs.head_lt (by omega)]
  rw [hnew]
  by_cases hold : k < kept cfg s i - pops cfg s i
  · rw [List.getElem_append_left (by rw [hlen]; exact hold), nextOwner_kept hs hi (by omega)]
    simp [queue]
  · rw [List.getElem_append_right (by rw [hlen]; omega)]
    have hj : k - (kept cfg s i - pops cfg s i) < pushes cfg s i := by omega
    have hplace : pops cfg s i + k = s.count + (k - (kept cfg s i - pops cfg s i)) := by
      have hkept : kept cfg s i = s.count := kept_of_pushes (by omega)
      omega
    rw [hplace, nextOwner_fresh hs hi hj]
    simp [freshNumbers, hlen]

/-- **One edge of the module is one edge of the queue.** -/
theorem queue_step : queue (step cfg s i) (l.update cfg s i) =
    (queue s l).edge (pops cfg s i) (kept cfg s i) (freshNumbers cfg s i l) := by
  have hle : kept cfg s i ≤ s.count := kept_le
  have hcount := hs.count_le
  have hpushed : (queue (step cfg s i) (l.update cfg s i)).pushed =
      (queue s l).pushed ++ freshNumbers cfg s i l := by
    simp only [queue, Ledger.update, freshNumbers, List.length_append, allocatedTags_length]
    rw [List.range_add, List.range'_eq_map_range]
  have hretired : (queue (step cfg s i) (l.update cfg s i)).retired =
      (queue s l).retired ++ (queue s l).live.take (pops cfg s i) := by
    simp only [queue, Ledger.update, List.map_append, retiredTags_eq hs, List.map_map,
      ← List.map_take, List.take_range, Nat.min_eq_left (hpop.trans hle)]
    rfl
  have hremoved : (queue (step cfg s i) (l.update cfg s i)).removed =
      (queue s l).removed ++ (queue s l).live.drop (kept cfg s i) := by
    have hdrop : (List.range s.count).drop (kept cfg s i) = List.Ico (kept cfg s i) s.count := by
      rw [List.range_eq_range', List.drop_range', List.Ico]
      congr 1
      omega
    simp only [queue, Ledger.update, killedSlots_eq hs, List.map_map, ← List.map_drop, hdrop]
    rfl
  have hlive := @live_step cfg s i l hs hi hpop
  cases hq : queue (step cfg s i) (l.update cfg s i)
  simp only [hq] at hpushed hretired hremoved hlive
  rw [OrderedQueue.edge, hpushed, hretired, hremoved, hlive]

/-! ## Tags -/

omit hpop in
/-- A kept slot keeps its generation. -/
theorem nextGenerations_kept {k : ℕ} (hk : k < kept cfg s i) :
    nextGenerations cfg s i (Ring.offset cqDepth s.head k) =
      s.generations (Ring.offset cqDepth s.head k) := by
  have hno := not_allocated_of_kept hs hi hk
  rw [nextGenerations, if_neg hno.1, if_neg hno.2]

omit hpop in
/-- The tags answered on this edge name the fresh slots under their new
generations. -/
theorem allocatedTags_eq : allocatedTags cfg s i =
    (List.range (pushes cfg s i)).map (fun j =>
      CompletionTag.mk (Ring.offset cqDepth s.head (s.count + j))
        (nextGenerations cfg s i (Ring.offset cqDepth s.head (s.count + j)))) := by
  have hidx1 := @alloc1Index_eq cfg s i hs hi
  have hlt1 := @alloc1Count_lt cfg s i hi
  have htail := hs.tail_eq
  have htag1 : alloc1Tag s i = ⟨(alloc1Tag s i).index, (alloc1Tag s i).generation⟩ := rfl
  have htag0 : allocTag s = ⟨s.tail, (allocTag s).generation⟩ := rfl
  unfold allocatedTags nextGenerations pushes
  cases h0 : allocFire cfg s i <;> cases h1 : alloc1Fire cfg s i <;>
    simp only [h0, h1, Bool.toNat_true, Bool.toNat_false, forall_const, true_and, false_and,
      if_false, Bool.false_eq_true, Nat.add_zero, Nat.zero_add, if_true, IsEmpty.forall_iff,
      List.nil_append, List.append_nil, List.range_zero, List.map_nil, List.range_one,
      List.map_cons] at hidx1 hlt1 ⊢
  · rw [hidx1, if_pos rfl, ← hidx1]
  · rw [← htail, if_pos rfl]
    rfl
  · have hne : s.tail ≠ (alloc1Tag s i).index := by
      rw [htail, hidx1, Ne, Ring.offset_inj hs.head_lt (by omega) (by omega)]
      omega
    simp only [List.range_succ, List.range_zero, List.nil_append, List.map_cons, List.map_nil,
      List.cons_append, Nat.add_zero, ← htail, ← hidx1, if_neg hne, if_true]
    rfl

/-- **Tags stay with their entries.** -/
theorem tagged_step (ht : Tagged s l) : Tagged (step cfg s i) (l.update cfg s i) where
  live := by
    intro k hk
    have hfull := kept_add_pushes_le hs hi
    have hle : kept cfg s i ≤ s.count := kept_le
    rw [step_count hi.running, nextCount_eq hpop hs hi] at hk
    rw [step_head hi.running, step_generations hi.running, nextHead_eq hs,
      Ring.offset_offset hs.head_lt (by omega)]
    show (l.issued ++ allocatedTags cfg s i)[nextOwner cfg s i l _]? = _
    by_cases hold : pops cfg s i + k < kept cfg s i
    · have hlive := ht.live (pops cfg s i + k) (by omega)
      rw [nextOwner_kept hs hi hold, nextGenerations_kept hs hi hold]
      exact (List.getElem?_append_left (List.getElem?_eq_some_iff.1 hlive).1).trans hlive
    · have hkept : kept cfg s i = s.count := kept_of_pushes (by omega)
      obtain ⟨j, hj⟩ : ∃ j, pops cfg s i + k = s.count + j := ⟨_, (Nat.add_sub_of_le (by omega)).symm⟩
      have hjlt : j < pushes cfg s i := by omega
      rw [hj, nextOwner_fresh hs hi hjlt, List.getElem?_append_right (by omega),
        allocatedTags_eq hs hi]
      simp [hjlt]
  retired := by
    intro e he
    have hle : kept cfg s i ≤ s.count := kept_le
    have hold : l.issued[e.1]? = some e.2 := by
      rcases List.mem_append.1 he with h | h
      · exact ht.retired e h
      · rw [retiredTags_eq hs] at h
        simp only [List.map_map, List.mem_map, List.mem_range, Function.comp_apply] at h
        obtain ⟨k, hk, rfl⟩ := h
        exact ht.live k (by omega)
    exact (List.getElem?_append_left (List.getElem?_eq_some_iff.1 hold).1).trans hold

end Edge

/-! ## A whole run -/

section Runs

variable {cfg : Config}

/-- The ledger of a run after `n` edges. -/
def ledger (r : Run (machine cfg)) (n : ℕ) : Ledger :=
  r.history Ledger.start (Ledger.update cfg) n

/-- The queue of a run after `n` edges. -/
def queueAt (r : Run (machine cfg)) (n : ℕ) : OrderedQueue ℕ := queue (r.state n) (ledger r n)

theorem initial_eq {s : State} (h : (machine cfg).Initial s) : s = resetState := by
  obtain ⟨s₀, i, hrst, rfl⟩ := h
  simp [step, hrst]

/-- What holds of every reachable state and its ledger. -/
structure QueueInv (s : State) (l : Ledger) : Prop where
  ring : RingInv s
  wf : (queue s l).Wf
  tagged : Tagged s l

theorem queueInv_start : QueueInv resetState Ledger.start where
  ring := ringInv_resetState
  wf := OrderedQueue.wf_empty
  tagged := ⟨by simp [resetState], by simp [Ledger.start]⟩

/-- The invariant survives an edge whose retirement stays within what is kept. -/
theorem QueueInv.edge {s : State} {l : Ledger} {i : Input} (h : QueueInv s l)
    (hi : LegalInput cfg s i) (hpop : pops cfg s i ≤ kept cfg s i) :
    QueueInv (step cfg s i) (l.update cfg s i) where
  ring := ringInv_step hpop h.ring hi
  wf := by
    rw [queue_step h.ring hi hpop]
    exact OrderedQueue.wf_edge h.wf hpop
  tagged := tagged_step h.ring hi hpop h.tagged

theorem queueInv_run (hcfg : cfg.enablePivotRecovery = true) {r : Run (machine cfg)} {n : ℕ}
    (h : r.Obeys (LegalInput cfg) n) : QueueInv (r.state n) (ledger r n) :=
  Run.invariant_history (I := QueueInv)
    (fun s hinit => by rw [initial_eq hinit]; exact queueInv_start)
    (fun _ _ _ hI hi => hI.edge hi (pops_le_kept hcfg hI.ring hi)) h

/-- In a build without pivots too, while its recoveries are legal. -/
theorem queueInv_legal {r : Run (machine cfg)} {n : ℕ}
    (h : r.Obeys (fun s i => LegalInput cfg s i ∧ LegalRecovery cfg s i) n) :
    QueueInv (r.state n) (ledger r n) :=
  Run.invariant_history (I := QueueInv)
    (fun s hinit => by rw [initial_eq hinit]; exact queueInv_start)
    (fun _ _ _ hI hi => hI.edge hi.1 (pops_le_kept_of_legal hI.ring hi.1 hi.2)) h

/-- What one edge of a run does to the queue: some of the oldest entries retire,
an accepted recovery may remove a suffix that holds none of them, the allocated
entries join at the back, and the count neither overflows nor underflows. -/
structure EdgeSpec (r : Run (machine cfg)) (k : ℕ) : Prop where
  edge : queueAt r (k + 1) = (queueAt r k).edge (pops cfg (r.state k) (r.input k))
    (kept cfg (r.state k) (r.input k)) (freshNumbers cfg (r.state k) (r.input k) (ledger r k))
  pops_le : pops cfg (r.state k) (r.input k) ≤ kept cfg (r.state k) (r.input k)
  kept_le : kept cfg (r.state k) (r.input k) ≤ (r.state k).count
  removal : kept cfg (r.state k) (r.input k) < (r.state k).count →
    redirectAccepted cfg (r.state k) (r.input k) = true
  count : (r.state (k + 1)).count + pops cfg (r.state k) (r.input k) =
    kept cfg (r.state k) (r.input k) + pushes cfg (r.state k) (r.input k)

theorem edgeSpec_run (hcfg : cfg.enablePivotRecovery = true) {r : Run (machine cfg)} {k n : ℕ}
    (h : r.Obeys (LegalInput cfg) n) (hk : k < n) : EdgeSpec r k := by
  have hinv := queueInv_run hcfg (h.mono hk.le)
  have hi := h k hk
  have hpop := pops_le_kept hcfg hinv.ring hi
  refine ⟨queue_step hinv.ring hi hpop, hpop, kept_le, ?_, ?_⟩
  · intro hlt
    cases hacc : redirectAccepted cfg (r.state k) (r.input k) with
    | true => rfl
    | false => simp [kept, hacc] at hlt
  · show (step cfg (r.state k) (r.input k)).count + _ = _
    rw [step_count hi.running, nextCount_eq hpop hinv.ring hi]
    omega

/-- **The completion queue refines a program-ordered list.**  In every state a
legal run reaches the ring holds its entries as `RingInv` says; every edge is an
edge of the ordered queue; every entry ever allocated is once and only once
either retired, removed or live; what retired and what is live are in allocation
order; and an entry keeps the tag it was allocated under. -/
theorem refines_orderedQueue (hcfg : cfg.enablePivotRecovery = true) (r : Run (machine cfg))
    (n : ℕ) (h : r.Obeys (LegalInput cfg) n) :
    RingInv (r.state n) ∧ (∀ k < n, EdgeSpec r k) ∧
      (∀ a < (ledger r n).issued.length, (queueAt r n).retired.count a +
        (queueAt r n).removed.count a + (queueAt r n).live.count a = 1) ∧
      ((queueAt r n).retired ++ (queueAt r n).live).Pairwise (· < ·) ∧
      Tagged (r.state n) (ledger r n) := by
  have hinv := queueInv_run hcfg h
  refine ⟨hinv.ring, fun k hk => edgeSpec_run hcfg h hk, fun a ha => ?_, ?_, hinv.tagged⟩
  · exact hinv.wf.count_eq_one List.nodup_range (List.mem_range.2 ha)
  · exact List.Pairwise.sublist hinv.wf.inOrder List.pairwise_lt_range

/-! ## A short run -/

/-- Every feature on. -/
def fullConfig : Config := ⟨true, true, true, true⟩

/-- Two entries arrive finished, retire as a pair while a third arrives at the
tail, and a recovery then removes the third. -/
def pairInputs : ℕ → Input
  | 0 => { allocValid := true, allocFinished := true, alloc1Valid := true,
           alloc1 := { (default : RetirePacket) with cq1Ok := true }, alloc1Finished := true }
  | 1 => { retireReady := true, retire1Ready := true, alloc1Valid := true, alloc1AtTail := true }
  | _ => { redirectValid := true, redirectAll := true }

/-- The run of these inputs from reset. -/
def pairRun : Run (machine fullConfig) where
  start := resetState
  initial := initial_reset fullConfig
  input := pairInputs

theorem refines_orderedQueue_pairRun :
    queueAt pairRun 3 = ⟨[0, 1, 2], [], [0, 1], [2]⟩ ∧
      RingInv (pairRun.state 3) ∧ (∀ k < 3, EdgeSpec pairRun k) ∧
      (∀ a < (ledger pairRun 3).issued.length, (queueAt pairRun 3).retired.count a +
        (queueAt pairRun 3).removed.count a + (queueAt pairRun 3).live.count a = 1) ∧
      ((queueAt pairRun 3).retired ++ (queueAt pairRun 3).live).Pairwise (· < ·) ∧
      Tagged (pairRun.state 3) (ledger pairRun 3) := by
  have hlegal : pairRun.Obeys (LegalInput fullConfig) 3 := by
    intro k hk
    interval_cases k <;> exact ⟨rfl, by decide, by decide, nofun⟩
  exact ⟨by decide, refines_orderedQueue rfl pairRun 3 hlegal⟩

end Runs

end Completion
end SloPPC603
