import SloPPC603.Flags.XerBit

/-!
# The pending writers

The core remembers one pending writer of CA and one of SO, outside the queue.  The
register names the youngest writer, so when it retires no writer is left; and
while any writer is in flight the register is set.  Beside the entries stand the
operands: what the units captured with each of them.

* `PendingInv`, `pendingInv_step` — the register covers the writers in flight.
* `flight`, `flight_step` — the entries in flight beside their operands.
-/

namespace SloPPC603
namespace Flags

open Completion (Entry entries)

variable {cfg : Config} {s : System} {i : Input} {b : XerBit}

/-! ## The pending writer -/

section Pending

/-- The pending register covers the writers of a bit: it is set while one is in
flight, and none is younger than the one it names. -/
structure PendingInv (b : XerBit) (s : System) : Prop where
  pending : ∀ e ∈ entries s.cq, b.writes e.packet = true → b.pending s = true
  youngest : (entries s.cq).Pairwise fun e f => e.tag = b.writer s → b.writes f.packet = false

theorem pending_step (h : Legal cfg s i) : b.pending (System.step cfg s i) =
    nextPending cfg s i b.claims (b.pending s) (b.writer s) := by
  rw [step_eq h]
  cases b <;> rfl

theorem writer_step (h : Legal cfg s i) : b.writer (System.step cfg s i) =
    nextWriter cfg s i b.claims (b.writer s) := by
  rw [step_eq h]
  cases b <;> rfl

/-- A lane that claims a bit is not removed. -/
theorem not_removed_of_claims0 (h : Legal cfg s i) (hc : claims0 cfg s i b.claims = true) :
    i.lane0.removed = false := by
  by_contra hrem
  have hfree : (uop0 cfg i).flagFree = true :=
    h.lane0.branch_flagFree (h.lane0.removed (by simpa using hrem))
  simp only [claims0, Bool.and_eq_true] at hc
  rw [XerBit.claims_of_flagFree hfree] at hc
  exact absurd hc.2 (by simp)

theorem not_removed_of_claims1 (h : Legal cfg s i) (hc : claims1 cfg s i b.claims = true) :
    i.lane1.removed = false := by
  by_contra hrem
  have hfree : (uop1 cfg i).flagFree = true :=
    h.lane1.branch_flagFree (h.lane1.removed (by simpa using hrem))
  simp only [claims1, Bool.and_eq_true] at hc
  rw [XerBit.claims_of_flagFree hfree] at hc
  exact absurd hc.2 (by simp)

/-- The register keeps its name, or names an entry allocated on this edge. -/
theorem writer_step_cases (h : Legal cfg s i) :
    (claims0 cfg s i b.claims = false ∧ claims1 cfg s i b.claims = false ∧
      b.writer (System.step cfg s i) = b.writer s) ∨
    b.writer (System.step cfg s i) ∈ Completion.allocatedTags cfg.cq s.cq (ports cfg s i) := by
  rw [writer_step h, nextWriter]
  by_cases h1 : claims1 cfg s i b.claims = true
  · right
    have hd : dispatch1 cfg s i = true := by
      simp only [claims1, Bool.and_eq_true] at h1
      exact h1.1.1
    rw [if_pos h1, Completion.allocatedTags, alloc1Fire_eq, hd, not_removed_of_claims1 h h1]
    exact List.mem_append_right _ (List.mem_singleton.2 rfl)
  by_cases h0 : claims0 cfg s i b.claims = true
  · right
    have hd : dispatch cfg s i = true := by
      simp only [claims0, Bool.and_eq_true] at h0
      exact h0.1.1
    rw [if_neg h1, if_pos h0, Completion.allocatedTags, allocFire_eq, hd,
      not_removed_of_claims0 h h0]
    exact List.mem_append_left _ (List.mem_singleton.2 rfl)
  · left
    rw [Bool.not_eq_true] at h0 h1
    simp [h0, h1]

/-- A fresh writer has claimed the bit. -/
theorem claims_of_fresh (h : Legal cfg s i) {e : Entry}
    (he : e ∈ Completion.freshEntries cfg.cq s.cq (ports cfg s i))
    (hw : b.writes e.packet = true) :
    claims0 cfg s i b.claims = true ∨ claims1 cfg s i b.claims = true := by
  rw [freshEntries_eq] at he
  rcases List.mem_append.1 he with h0 | h1
  · left
    split_ifs at h0 with hd
    · rw [List.mem_singleton] at h0
      subst h0
      rw [Bool.and_eq_true] at hd
      rw [claims0, hd.1, Bool.true_and]
      exact writes_allocation0 h hw
    · exact absurd h0 List.not_mem_nil
  · right
    split_ifs at h1 with hd
    · rw [List.mem_singleton] at h1
      subst h1
      rw [Bool.and_eq_true] at hd
      rw [claims1, hd.1, Bool.true_and]
      exact writes_allocation1 h hw
    · exact absurd h1 List.not_mem_nil

/-- A tag that retires is the tag of a retiring entry. -/
theorem exists_of_retires (hs : Completion.RingInv s.cq) (h : Legal cfg s i)
    {tag : CompletionTag} (hr : retires cfg s i tag = true) :
    ∃ e ∈ (entries s.cq).take (Completion.pops cfg.cq s.cq (ports cfg s i)), e.tag = tag := by
  have hle : Completion.pops cfg.cq s.cq (ports cfg s i) ≤ s.cq.count :=
    (pops_le_kept hs h).trans Completion.kept_le
  have hmem : tag ∈ Completion.retiredTags cfg.cq s.cq (ports cfg s i) := by
    simp only [retires, commit, commit1, Bool.or_eq_true, Bool.and_eq_true,
      decide_eq_true_eq] at hr
    rw [Completion.retiredTags]
    rcases hr with ⟨hc, rfl⟩ | ⟨hc, rfl⟩
    · exact List.mem_append_left _ (by rw [if_pos hc]; exact List.mem_singleton.2 rfl)
    · exact List.mem_append_right _ (by rw [if_pos hc]; exact List.mem_singleton.2 rfl)
  rw [← Completion.take_pops_tag hs hle] at hmem
  obtain ⟨e, he, rfl⟩ := List.mem_map.1 hmem
  exact ⟨e, he, rfl⟩

/-- What an entry that retires or stays and one behind it are to each other. -/
theorem pairwise_split (hs : Completion.RingInv s.cq) (h : Legal cfg s i)
    {R : Entry → Entry → Prop} (hR : (entries s.cq).Pairwise R) :
    (survivors cfg s i).Pairwise R ∧
      ∀ x ∈ (entries s.cq).take (Completion.pops cfg.cq s.cq (ports cfg s i)),
        ∀ y ∈ survivors cfg s i, R x y := by
  rw [entries_split hs h, List.pairwise_append, List.pairwise_append] at hR
  obtain ⟨-, ⟨hstay, -, -⟩, hcross⟩ := hR
  exact ⟨hstay, fun x hx y hy => hcross x hx y (List.mem_append_left _ hy)⟩

/-- No writer outlives the one the register names. -/
theorem pendingInv_step (hs : Completion.RingInv s.cq) (h : Legal cfg s i)
    (hb : PendingInv b s) : PendingInv b (System.step cfg s i) := by
  have hnodup := Completion.nodup_tags (ringInv_step hs h)
  obtain ⟨hstay, hcross⟩ := pairwise_split hs h hb.youngest
  constructor
  · intro e he hw
    rw [entries_step hs h] at he
    rw [pending_step h, nextPending]
    rcases List.mem_append.1 he with hold | hnew
    · obtain ⟨e, hmem, rfl⟩ := List.mem_map.1 hold
      have hwe : b.writes e.packet = true := by
        by_contra hno
        rw [Bool.not_eq_true] at hno
        rw [writes_settle hno] at hw
        cases hw
      have hin := mem_of_mem_survivors hmem
      have hnotretire : retires cfg s i (b.writer s) = false := by
        by_contra hr
        rw [Bool.not_eq_false] at hr
        obtain ⟨x, hx, htag⟩ := exists_of_retires hs h hr
        rw [hcross x hx e hmem htag] at hwe
        cases hwe
      have hfull : cqEmpty s = false := by
        have hcount : 0 < s.cq.count := by
          rw [← Completion.entries_length]
          exact List.length_pos_of_mem hin
        simp only [cqEmpty, decide_eq_false_iff_not]
        omega
      simp [hnotretire, hfull, hb.pending e hin hwe]
    · rcases claims_of_fresh h hnew hw with hc | hc <;> simp [hc]
  · have hfresh : (Completion.freshEntries cfg.cq s.cq (ports cfg s i)).Pairwise
        fun e f => e.tag ≠ f.tag := by
      rw [entries_step hs h, List.map_append, List.nodup_append] at hnodup
      exact List.pairwise_map.1 hnodup.2.1
    rw [entries_step hs h, List.pairwise_append]
    refine ⟨List.pairwise_map.2 ?_, ?_, ?_⟩
    · -- the entries that stay are older than a fresh writer
      rcases writer_step_cases (b := b) h with ⟨-, -, hkeep⟩ | hnew
      · rw [hkeep]
        exact hstay.imp fun hef htag => writes_settle (hef htag)
      · refine List.pairwise_of_forall_mem_list fun e he f _ htag => ?_
        rw [Completion.settle_tag] at htag
        rw [← htag] at hnew
        exact absurd (List.mem_map_of_mem (mem_of_mem_survivors he))
          (Completion.fresh_not_mem hs h.queue hnew)
    · -- lane 1 behind lane 0
      rw [freshEntries_eq] at hfresh ⊢
      rw [writer_step h]
      split_ifs at hfresh ⊢ with h0 h1 h1
      · rw [List.singleton_append, List.pairwise_pair] at hfresh ⊢
        intro htag
        by_contra hw
        rw [Bool.not_eq_false] at hw
        have hc1 : claims1 cfg s i b.claims = true := by
          rw [Bool.and_eq_true] at h1
          rw [claims1, h1.1, Bool.true_and]
          exact writes_allocation1 h hw
        rw [nextWriter, if_pos hc1] at htag
        exact hfresh htag
      all_goals simp
    · intro e he f hf htag
      obtain ⟨e, hmem, rfl⟩ := List.mem_map.1 he
      rw [Completion.settle_tag] at htag
      rcases writer_step_cases (b := b) h with ⟨h0, h1, -⟩ | hnew
      · by_contra hw
        rw [Bool.not_eq_false] at hw
        rcases claims_of_fresh h hf hw with hc | hc
        · rw [h0] at hc; cases hc
        · rw [h1] at hc; cases hc
      · rw [← htag] at hnew
        exact absurd (List.mem_map_of_mem (mem_of_mem_survivors hmem))
          (Completion.fresh_not_mem hs h.queue hnew)

/-- With no writer pending nothing in flight writes the bit. -/
theorem PendingInv.clear (hb : PendingInv b s)
    (hc : b.pending s = false ∨ cqEmpty s = true) :
    ∀ e ∈ entries s.cq, b.writes e.packet = false := by
  intro e he
  by_contra hw
  rw [Bool.not_eq_false] at hw
  rcases hc with hno | hempty
  · rw [hb.pending e he hw] at hno
    cases hno
  · have hcount : 0 < s.cq.count := by
      rw [← Completion.entries_length]
      exact List.length_pos_of_mem he
    simp only [cqEmpty, decide_eq_true_eq] at hempty
    omega

end Pending

/-! ## Entries and their operands -/

section Flight

/-- The entries in flight with what the units hold of them, oldest first. -/
def flight (s : System) : List (Entry × Operand) := (entries s.cq).zip s.operands

/-- The entries that retire on this edge, with their operands. -/
def retiring (cfg : Config) (s : System) (i : Input) : List (Entry × Operand) :=
  (flight s).take (Completion.pops cfg.cq s.cq (ports cfg s i))

/-- The entries that stay, as they were before the edge. -/
def remaining (cfg : Config) (s : System) (i : Input) : List (Entry × Operand) :=
  ((flight s).take (Completion.kept cfg.cq s.cq (ports cfg s i))).drop
    (Completion.pops cfg.cq s.cq (ports cfg s i))

/-- Lane 0's entry and operand. -/
def fresh0 (cfg : Config) (s : System) (i : Input) : Entry × Operand :=
  (⟨allocProducer s, Completion.normalize (allocation0 cfg i),
      (allocation0 cfg i).illegal || (i.lane0.fp || i.lane0.finished)⟩,
    capture s (allocProducer s) (uop0 cfg i))

/-- Lane 1's. -/
def fresh1 (cfg : Config) (s : System) (i : Input) : Entry × Operand :=
  (⟨alloc1Producer cfg s i, Completion.normalize (allocation1 cfg i),
      (allocation1 cfg i).illegal || (i.lane1.fp || i.lane1.branch)⟩,
    capture s (alloc1Producer cfg s i) (uop1 cfg i))

/-- The entries and operands that enter on this edge. -/
def entering (cfg : Config) (s : System) (i : Input) : List (Entry × Operand) :=
  (if dispatch cfg s i && !i.lane0.removed then [fresh0 cfg s i] else []) ++
    (if dispatch1 cfg s i && !i.lane1.removed then [fresh1 cfg s i] else [])

/-- Every entry has its operand. -/
def Paired (s : System) : Prop := s.operands.map Operand.tag = (entries s.cq).map Entry.tag

theorem Paired.length (h : Paired s) : s.operands.length = (entries s.cq).length := by
  have hlen := congrArg List.length h
  simpa using hlen

theorem Paired.map_fst (h : Paired s) : (flight s).map Prod.fst = entries s.cq :=
  List.map_fst_zip h.length.ge

/-- An operand in flight carries the tag of its entry. -/
theorem Paired.tag_eq (h : Paired s) {x : Entry × Operand} (hx : x ∈ flight s) :
    x.2.tag = x.1.tag := by
  obtain ⟨k, hk, rfl⟩ := List.mem_iff_getElem.1 hx
  have hkz := hk
  rw [flight, List.length_zip] at hkz
  have hget := congrArg (fun l => l[k]?) h
  simp only [List.getElem?_map] at hget
  rw [List.getElem?_eq_getElem (by omega), List.getElem?_eq_getElem (by omega)] at hget
  simpa [flight] using hget

theorem mem_entries_of_flight {x : Entry × Operand} (hx : x ∈ flight s) :
    x.1 ∈ entries s.cq := (List.of_mem_zip hx).1

theorem mem_operands_of_flight {x : Entry × Operand} (hx : x ∈ flight s) :
    x.2 ∈ s.operands := (List.of_mem_zip hx).2

theorem mem_of_mem_remaining {x : Entry × Operand} (hx : x ∈ remaining cfg s i) :
    x ∈ flight s := List.mem_of_mem_take (List.mem_of_mem_drop hx)

/-- What the two lanes put in, taken apart. -/
theorem mem_entering {x : Entry × Operand} (hx : x ∈ entering cfg s i) :
    (dispatch cfg s i = true ∧ x = fresh0 cfg s i) ∨
      (dispatch1 cfg s i = true ∧ x = fresh1 cfg s i) := by
  rcases List.mem_append.1 hx with h0 | h1
  · split_ifs at h0 with hd
    · rw [Bool.and_eq_true] at hd
      exact Or.inl ⟨hd.1, List.mem_singleton.1 h0⟩
    · exact absurd h0 List.not_mem_nil
  · split_ifs at h1 with hd
    · rw [Bool.and_eq_true] at hd
      exact Or.inr ⟨hd.1, List.mem_singleton.1 h1⟩
    · exact absurd h1 List.not_mem_nil

theorem zip_fresh : (Completion.freshEntries cfg.cq s.cq (ports cfg s i)).zip
    (freshOperands cfg s i) = entering cfg s i := by
  rw [freshEntries_eq, freshOperands, allocFire_eq, alloc1Fire_eq, entering]
  cases dispatch cfg s i && !i.lane0.removed <;>
    cases dispatch1 cfg s i && !i.lane1.removed <;> rfl

theorem paired_step (hs : Completion.RingInv s.cq) (h : Legal cfg s i) (hp : Paired s) :
    Paired (System.step cfg s i) := by
  have hstay : (survivors cfg s i).map Entry.tag =
      (((s.operands.take (Completion.kept cfg.cq s.cq (ports cfg s i))).drop
        (Completion.pops cfg.cq s.cq (ports cfg s i))).map Operand.tag) := by
    rw [survivors, List.map_drop, List.map_take, List.map_drop, List.map_take, hp]
  have hfresh : (freshOperands cfg s i).map Operand.tag =
      (Completion.freshEntries cfg.cq s.cq (ports cfg s i)).map Entry.tag := by
    rw [freshEntries_eq, freshOperands, allocFire_eq, alloc1Fire_eq]
    cases dispatch cfg s i && !i.lane0.removed <;>
      cases dispatch1 cfg s i && !i.lane1.removed <;> rfl
  rw [Paired, entries_step hs h, step_eq h]
  show (nextOperands cfg s i).map Operand.tag = _
  rw [nextOperands, List.map_append, List.map_append, ← hstay, hfresh, List.map_map]
  rfl

/-- **The edge on the entries and their operands.** -/
theorem flight_step (hs : Completion.RingInv s.cq) (h : Legal cfg s i) (hp : Paired s) :
    flight (System.step cfg s i) =
      (remaining cfg s i).map
          (Prod.map (Completion.settle cfg.cq s.cq (ports cfg s i)) id) ++
        entering cfg s i := by
  have hlen : ((survivors cfg s i).map
      (Completion.settle cfg.cq s.cq (ports cfg s i))).length =
      ((s.operands.take (Completion.kept cfg.cq s.cq (ports cfg s i))).drop
        (Completion.pops cfg.cq s.cq (ports cfg s i))).length := by
    simp only [survivors, List.length_map, List.length_drop, List.length_take, hp.length]
  have hops : (System.step cfg s i).operands = nextOperands cfg s i := by rw [step_eq h]
  rw [flight, entries_step hs h, hops, nextOperands, List.zip_append hlen, zip_fresh,
    List.zip_map_left, survivors, remaining, flight]
  simp only [List.zip_eq_zipWith, List.take_zipWith, List.drop_zipWith]

/-- The flight is what retires, what stays and what the recovery removes. -/
theorem flight_split (hs : Completion.RingInv s.cq) (h : Legal cfg s i) : flight s =
    retiring cfg s i ++ (remaining cfg s i ++
      (flight s).drop (Completion.kept cfg.cq s.cq (ports cfg s i))) :=
  (Clocked.OrderedQueue.take_append_drop_take _ (pops_le_kept hs h)).symm

end Flight

end Flags
end SloPPC603
