import SloPPC603.Completion.Order

/-!
# The completion queue as a list of entries

`entries` reads the ring as the list of its entries, oldest first, each with its
tag, its packet and its finished bit.  One edge takes `pops` entries from the
front, keeps the first `kept` of the old ones, lets the finish ports write into
what is left and appends the allocated entries: `entries_step`.  A unit that sits
beside the queue is verified against this list.

* `entries_step` — the edge on the list.
* `nodup_tags`, `fresh_not_mem` — tags name entries.
* `controls`, `controls_retire` — a clean finish rewrites four fields of a packet
  and nothing else, so an entry retires under the controls it was stored with.
-/

namespace SloPPC603

/-- A packet without the fields a clean finish rewrites. -/
def RetirePacket.controls (p : RetirePacket) : RetirePacket :=
  { p with
    value := 0
    updateValue := 0
    crDelta := 0
    xerDelta := 0 }

namespace Completion

/-! ## Entries -/

/-- An entry in flight. -/
structure Entry where
  tag : CompletionTag
  packet : RetirePacket
  done : Bool
  deriving DecidableEq, Repr

/-- The slot `k` places behind the head. -/
def slotAt (s : State) (k : ℕ) : ℕ := Ring.offset cqDepth s.head k

/-- The entry `k` places behind the head. -/
def entryAt (s : State) (k : ℕ) : Entry :=
  ⟨⟨slotAt s k, s.generations (slotAt s k)⟩, s.packets (slotAt s k), s.done (slotAt s k)⟩

/-- The queue, oldest entry first. -/
def entries (s : State) : List Entry := (List.range s.count).map (entryAt s)

section Edge

variable (cfg : Config) (s : State) (i : Input)

/-- What the finish ports make of an entry's packet. -/
def finishedPacket (e : Entry) : RetirePacket :=
  if finish2Accept cfg s i ∧ i.result2.producer = e.tag then
    finishInto (result2Fault cfg i) e.packet (finished e.packet default)
      (faulted e.packet i.result2)
  else if finish1Accept cfg s i ∧ i.result1.producer = e.tag then
    mergeFinish e.packet (finished1 e.packet i.result1)
  else if finishAccept cfg s i ∧ i.result.producer = e.tag then
    finishInto (resultFault cfg i) e.packet (finished e.packet i.result)
      (faulted e.packet i.result)
  else e.packet

/-- A finish port names the entry. -/
def finishes (e : Entry) : Bool :=
  (finishAccept cfg s i && i.result.producer = e.tag) ||
    (finish1Accept cfg s i && i.result1.producer = e.tag) ||
    (finish2Accept cfg s i && i.result2.producer = e.tag)

/-- An entry that stays, after the edge's finishes. -/
def settle (e : Entry) : Entry := ⟨e.tag, finishedPacket cfg s i e, e.done || finishes cfg s i e⟩

/-- The entries allocated on this edge, lane 0's first. -/
def freshEntries : List Entry :=
  (if allocFire cfg s i then
    [⟨allocTag s, normalize i.alloc, i.alloc.illegal || i.allocFinished⟩] else []) ++
  (if alloc1Fire cfg s i then
    [⟨alloc1Tag s i, normalize i.alloc1, i.alloc1.illegal || i.alloc1Finished⟩] else [])

variable {cfg s i}

@[simp] theorem entries_length : (entries s).length = s.count := by
  simp [entries]

theorem entries_resetState : entries resetState = [] := rfl

@[simp] theorem settle_tag (e : Entry) : (settle cfg s i e).tag = e.tag := rfl

@[simp] theorem entryAt_tag_index (k : ℕ) : (entryAt s k).tag.index = slotAt s k := rfl

theorem mem_entries {e : Entry} : e ∈ entries s ↔ ∃ k < s.count, entryAt s k = e := by
  simp [entries]

theorem getElem_entries {k : ℕ} (hk : k < (entries s).length) :
    (entries s)[k] = entryAt s k := by
  simp [entries]

theorem freshEntries_length : (freshEntries cfg s i).length = pushes cfg s i := by
  unfold freshEntries pushes
  cases allocFire cfg s i <;> cases alloc1Fire cfg s i <;> rfl

/-- The tags of the fresh entries are the tags answered to the lanes. -/
theorem freshEntries_tag : (freshEntries cfg s i).map Entry.tag = allocatedTags cfg s i := by
  unfold freshEntries allocatedTags
  cases allocFire cfg s i <;> cases alloc1Fire cfg s i <;> rfl

/-! ## What a finish port reaches -/

/-- A finish is accepted for an active, unfinished slot under its generation. -/
theorem finishOwner_spec {valid : Bool} {r : ResultPacket}
    (h : finishOwner cfg s i valid r = true) :
    valid = true ∧ r.producer.index < cqDepth ∧ s.active r.producer.index = true ∧
      s.done r.producer.index = false ∧
      s.generations r.producer.index = r.producer.generation ∧
      redirectKill cfg s i r.producer.index = false := by
  simp only [finishOwner, Bool.and_eq_true, Bool.not_eq_true', decide_eq_true_eq] at h
  tauto

/-- Among the slots of the ring the accepted producer's index names its tag. -/
theorem producer_index_eq_iff {valid : Bool} {r : ResultPacket}
    (h : finishOwner cfg s i valid r = true) (k : ℕ) :
    r.producer.index = slotAt s k ↔ r.producer = (entryAt s k).tag := by
  have hgen := (finishOwner_spec h).2.2.2.2.1
  constructor
  · intro heq
    have hcases : r.producer = ⟨r.producer.index, r.producer.generation⟩ := rfl
    rw [hcases, ← hgen, heq]
    rfl
  · intro heq
    rw [heq, entryAt_tag_index]

variable (hs : RingInv s)
include hs

theorem slotAt_lt {k : ℕ} (hk : k ≤ cqDepth) : slotAt s k < cqDepth :=
  Ring.offset_lt hs.head_lt hk

theorem slotAt_inj {j k : ℕ} (hj : j < cqDepth) (hk : k < cqDepth) :
    slotAt s j = slotAt s k ↔ j = k := Ring.offset_inj hs.head_lt hj hk

/-- A finish is accepted for an entry of the queue that the edge keeps. -/
theorem exists_of_finishOwner {valid : Bool} {r : ResultPacket}
    (h : finishOwner cfg s i valid r = true) :
    ∃ k < kept cfg s i, r.producer = (entryAt s k).tag := by
  obtain ⟨-, hidx, hact, -, -, hkill⟩ := finishOwner_spec h
  have hage := (hs.active_iff _ hidx).1 hact
  have hslot : slotAt s (Ring.age cqDepth r.producer.index s.head) = r.producer.index :=
    Ring.offset_age hidx hs.head_lt
  refine ⟨Ring.age cqDepth r.producer.index s.head, ?_,
    (producer_index_eq_iff h _).1 hslot.symm⟩
  by_contra hlt
  have hkilled : redirectKill cfg s i r.producer.index = true := by
    rw [redirectKill_iff hs hidx]
    unfold kept at hlt
    split_ifs at hlt with hacc
    · exact ⟨hacc, by omega, hage⟩
    · omega
  rw [hkill] at hkilled
  cases hkilled

/-- No finish reaches a slot outside the queue. -/
theorem producer_index_ne {valid : Bool} {r : ResultPacket}
    (h : finishOwner cfg s i valid r = true) {k : ℕ} (hk : s.count ≤ k) (hk' : k < cqDepth) :
    r.producer.index ≠ slotAt s k := by
  obtain ⟨j, hj, heq⟩ := exists_of_finishOwner hs h
  have hle : kept cfg s i ≤ s.count := kept_le
  rw [heq, entryAt_tag_index, Ne, slotAt_inj hs (by omega) hk']
  omega

/-! ## Tags name entries -/

theorem nodup_tags : ((entries s).map Entry.tag).Nodup := by
  have hcount := hs.count_le
  rw [entries, List.map_map]
  refine (List.nodup_range).map_on ?_
  intro j hj k hk heq
  rw [List.mem_range] at hj hk
  have hslot : slotAt s j = slotAt s k := congrArg CompletionTag.index heq
  exact (slotAt_inj hs (by omega) (by omega)).1 hslot

omit hs in
/-- The `j`th slot allocated on this edge is the `j`th behind the queue. -/
theorem allocatedTags_index (hs : RingInv s) (hi : LegalInput cfg s i) :
    (allocatedTags cfg s i).map CompletionTag.index =
      (List.range (pushes cfg s i)).map (fun j => slotAt s (s.count + j)) := by
  rw [allocatedTags_eq hs hi, List.map_map]
  rfl

/-- **A fresh tag names no entry of the queue.** -/
theorem fresh_not_mem (hi : LegalInput cfg s i) {tag : CompletionTag}
    (h : tag ∈ allocatedTags cfg s i) : tag ∉ (entries s).map Entry.tag := by
  have hfull := kept_add_pushes_le hs hi
  have hmem : tag.index ∈ (allocatedTags cfg s i).map CompletionTag.index :=
    List.mem_map_of_mem h
  rw [allocatedTags_index hs hi] at hmem
  obtain ⟨j, hj, hidx⟩ := List.mem_map.1 hmem
  rw [List.mem_range] at hj
  have hkept : kept cfg s i = s.count := kept_of_pushes (by omega)
  intro hold
  obtain ⟨e, he, rfl⟩ := List.mem_map.1 hold
  obtain ⟨k, hk, rfl⟩ := mem_entries.1 he
  rw [entryAt_tag_index, slotAt_inj hs (by omega) (by omega)] at hidx
  omega

/-! ## One edge on the list -/

theorem not_allocated_slotAt (hi : LegalInput cfg s i) {k : ℕ} (hk : k < kept cfg s i) :
    ¬ (alloc1Fire cfg s i = true ∧ slotAt s k = (alloc1Tag s i).index) ∧
      ¬ (allocFire cfg s i = true ∧ slotAt s k = s.tail) :=
  not_allocated_of_kept hs hi hk

theorem nextPackets_kept (hi : LegalInput cfg s i) {k : ℕ} (hk : k < kept cfg s i) :
    nextPackets cfg s i (slotAt s k) = finishedPacket cfg s i (entryAt s k) := by
  obtain ⟨hno1, hno0⟩ := not_allocated_slotAt hs hi hk
  have h2 : (finish2Accept cfg s i = true ∧ i.result2.producer.index = slotAt s k) ↔
      (finish2Accept cfg s i = true ∧ i.result2.producer = (entryAt s k).tag) :=
    and_congr_right fun h => producer_index_eq_iff h k
  have h1 : (finish1Accept cfg s i = true ∧ i.result1.producer.index = slotAt s k) ↔
      (finish1Accept cfg s i = true ∧ i.result1.producer = (entryAt s k).tag) :=
    and_congr_right fun h => producer_index_eq_iff h k
  have h0 : (finishAccept cfg s i = true ∧ i.result.producer.index = slotAt s k) ↔
      (finishAccept cfg s i = true ∧ i.result.producer = (entryAt s k).tag) :=
    and_congr_right fun h => producer_index_eq_iff h k
  unfold nextPackets finishedPacket
  simp only [h2, h1, h0, if_neg hno1, if_neg hno0]
  rfl

omit hs in
/-- The finish bit a slot of the queue is given. -/
theorem finishes_entryAt (k : ℕ) : finishes cfg s i (entryAt s k) = true ↔
    (finishAccept cfg s i = true ∧ slotAt s k = i.result.producer.index ∨
      finish1Accept cfg s i = true ∧ slotAt s k = i.result1.producer.index ∨
      finish2Accept cfg s i = true ∧ slotAt s k = i.result2.producer.index) := by
  have h2 := fun h : finish2Accept cfg s i = true => producer_index_eq_iff h k
  have h1 := fun h : finish1Accept cfg s i = true => producer_index_eq_iff h k
  have h0 := fun h : finishAccept cfg s i = true => producer_index_eq_iff h k
  simp only [finishes, Bool.or_eq_true, Bool.and_eq_true, decide_eq_true_eq, or_assoc,
    @eq_comm _ (slotAt s k)]
  rw [and_congr_right h0, and_congr_right h1, and_congr_right h2]

theorem nextDone_kept (hi : LegalInput cfg s i) {k : ℕ} (hk : k < kept cfg s i)
    (hpop : pops cfg s i ≤ k) : nextDone cfg s i (slotAt s k) =
      ((entryAt s k).done || finishes cfg s i (entryAt s k)) := by
  obtain ⟨hno1, hno0⟩ := not_allocated_slotAt hs hi hk
  have hle : kept cfg s i ≤ s.count := kept_le
  have hcount := hs.count_le
  have hslot : slotAt s k < cqDepth := slotAt_lt hs (by omega)
  have hstay : afterRetire cfg s i s.done (slotAt s k) = s.done (slotAt s k) := by
    have hold : afterRetire cfg s i s.active (slotAt s k) = true := by
      rw [afterRetire_active hs hslot, slotAt, Ring.age_offset hs.head_lt (by omega)]
      omega
    simp only [afterRetire, Bool.and_eq_true] at hold
    simp only [afterRetire, hold.1.2, hold.2, Bool.and_true]
  have hkill : ¬ redirectKill cfg s i (slotAt s k) = true := by
    intro hkilled
    have hage := (redirectKill_offset hs (by omega : k < cqDepth)).1 hkilled
    omega
  unfold nextDone
  by_cases hfin : finishes cfg s i (entryAt s k) = true
  · rw [if_pos ((finishes_entryAt k).1 hfin), hfin, Bool.or_true]
  · rw [if_neg (mt (finishes_entryAt k).2 hfin), if_neg hkill, if_neg hno1, if_neg hno0, hstay,
      ite_self, Bool.eq_false_iff.2 hfin, Bool.or_false]
    rfl

/-- A slot behind the queue takes what a lane allocates there. -/
theorem nextPackets_behind {k : ℕ} (hk : s.count ≤ k) (hk' : k < cqDepth) :
    nextPackets cfg s i (slotAt s k) =
      if alloc1Fire cfg s i ∧ slotAt s k = (alloc1Tag s i).index then normalize i.alloc1
      else if allocFire cfg s i ∧ slotAt s k = s.tail then normalize i.alloc
      else s.packets (slotAt s k) := by
  unfold nextPackets
  rw [if_neg fun h => producer_index_ne hs h.1 hk hk' h.2,
    if_neg fun h => producer_index_ne hs h.1 hk hk' h.2,
    if_neg fun h => producer_index_ne hs h.1 hk hk' h.2]

/-- So does its finished bit. -/
theorem nextDone_behind (hacc : redirectAccepted cfg s i = false) {k : ℕ} (hk : s.count ≤ k)
    (hk' : k < cqDepth) : nextDone cfg s i (slotAt s k) =
      if alloc1Fire cfg s i ∧ slotAt s k = (alloc1Tag s i).index then
        i.alloc1.illegal || i.alloc1Finished
      else if allocFire cfg s i ∧ slotAt s k = s.tail then i.alloc.illegal || i.allocFinished
      else afterRetire cfg s i s.done (slotAt s k) := by
  have hnone : ¬ (finishAccept cfg s i = true ∧ slotAt s k = i.result.producer.index ∨
      finish1Accept cfg s i = true ∧ slotAt s k = i.result1.producer.index ∨
      finish2Accept cfg s i = true ∧ slotAt s k = i.result2.producer.index) := by
    rintro (h | h | h) <;> exact producer_index_ne hs h.1 hk hk' h.2.symm
  unfold nextDone
  rw [if_neg hnone, hacc]
  simp only [Bool.false_eq_true, if_false]

/-- What the edge leaves in the slot `k` places behind the old head. -/
def placeEntry (cfg : Config) (s : State) (i : Input) (k : ℕ) : Entry :=
  ⟨⟨slotAt s k, nextGenerations cfg s i (slotAt s k)⟩, nextPackets cfg s i (slotAt s k),
    nextDone cfg s i (slotAt s k)⟩

theorem placeEntry_lane1 (hi : LegalInput cfg s i) (h1 : alloc1Fire cfg s i = true) :
    placeEntry cfg s i (s.count + (allocFire cfg s i).toNat) =
      ⟨alloc1Tag s i, normalize i.alloc1, i.alloc1.illegal || i.alloc1Finished⟩ := by
  have hidx : slotAt s (s.count + (allocFire cfg s i).toNat) = (alloc1Tag s i).index :=
    (alloc1Index_eq hs hi h1).symm
  have hlt := alloc1Count_lt hi h1
  have hacc : redirectAccepted cfg s i = false := by
    cases ha : redirectAccepted cfg s i with
    | false => rfl
    | true => simp [alloc1Fire, alloc1Ready, ha] at h1
  rw [placeEntry, nextPackets_behind hs (Nat.le_add_right _ _) hlt,
    nextDone_behind hs hacc (Nat.le_add_right _ _) hlt, nextGenerations, if_pos ⟨h1, hidx⟩,
    if_pos ⟨h1, hidx⟩, if_pos ⟨h1, hidx⟩, hidx]

theorem placeEntry_lane0 (hi : LegalInput cfg s i) (h0 : allocFire cfg s i = true) :
    placeEntry cfg s i s.count =
      ⟨allocTag s, normalize i.alloc, i.alloc.illegal || i.allocFinished⟩ := by
  have hidx : slotAt s s.count = s.tail := hs.tail_eq.symm
  have hlt := allocCount_lt h0
  have hacc : redirectAccepted cfg s i = false := by
    cases ha : redirectAccepted cfg s i with
    | false => rfl
    | true => simp [allocFire, allocReady, ha] at h0
  have hne : ¬ (alloc1Fire cfg s i = true ∧ slotAt s s.count = (alloc1Tag s i).index) := by
    rintro ⟨h1, heq⟩
    have hlt1 := alloc1Count_lt hi h1
    rw [h0, Bool.toNat_true] at hlt1
    rw [alloc1Index_eq hs hi h1, h0, Bool.toNat_true] at heq
    have hbad := (slotAt_inj hs hlt hlt1).1 heq
    omega
  rw [placeEntry, nextPackets_behind hs le_rfl hlt, nextDone_behind hs hacc le_rfl hlt,
    nextGenerations, if_neg hne, if_neg hne, if_neg hne, if_pos ⟨h0, hidx⟩, if_pos ⟨h0, hidx⟩,
    if_pos ⟨h0, hidx⟩, hidx]
  rfl

/-- The fresh entries fill the slots behind the queue. -/
theorem freshEntries_eq (hi : LegalInput cfg s i) : freshEntries cfg s i =
    (List.range (pushes cfg s i)).map (fun j => placeEntry cfg s i (s.count + j)) := by
  have hlane0 := @placeEntry_lane0 cfg s i hs hi
  have hlane1 := @placeEntry_lane1 cfg s i hs hi
  unfold freshEntries pushes
  cases h0 : allocFire cfg s i <;> cases h1 : alloc1Fire cfg s i <;>
    simp_all [List.range_succ]

/-- The edge moves the head past the entries that retire. -/
theorem slotAt_step (hi : LegalInput cfg s i) {k : ℕ} (hk : pops cfg s i + k ≤ cqDepth) :
    slotAt (step cfg s i) k = slotAt s (pops cfg s i + k) := by
  rw [slotAt, step_head hi.running, nextHead_eq hs, Ring.offset_offset hs.head_lt hk, slotAt]

/-- **One edge on the list.** -/
theorem entries_step (hi : LegalInput cfg s i) (hpop : pops cfg s i ≤ kept cfg s i) :
    entries (step cfg s i) =
      (((entries s).take (kept cfg s i)).drop (pops cfg s i)).map (settle cfg s i) ++
        freshEntries cfg s i := by
  have hfull := kept_add_pushes_le hs hi
  have hle : kept cfg s i ≤ s.count := kept_le
  have hstep : step cfg s i = ⟨nextPackets cfg s i, nextGenerations cfg s i,
      nextActive cfg s i, nextDone cfg s i, nextHead cfg s i, nextTail cfg s i,
      nextHead1 cfg s i, nextTail1 cfg s i, nextCount cfg s i⟩ := by
    rw [step, if_pos hi.running]
  have hnew : ∀ k, pops cfg s i + k ≤ cqDepth →
      entryAt (step cfg s i) k = placeEntry cfg s i (pops cfg s i + k) := by
    intro k hk
    rw [entryAt, slotAt_step hs hi hk, hstep, placeEntry]
  have hcount : (step cfg s i).count = kept cfg s i + pushes cfg s i - pops cfg s i := by
    rw [step_count hi.running, nextCount_eq hpop hs hi]
  have hlen : ((((entries s).take (kept cfg s i)).drop (pops cfg s i)).map
      (settle cfg s i)).length = kept cfg s i - pops cfg s i := by
    simp only [List.length_map, List.length_drop, List.length_take, entries_length]
    omega
  apply List.ext_getElem
  · rw [List.length_append, hlen, freshEntries_length, entries_length, hcount]
    omega
  intro k hk hk'
  rw [entries_length, hcount] at hk
  rw [getElem_entries, hnew k (by omega)]
  by_cases hold : k < kept cfg s i - pops cfg s i
  · rw [List.getElem_append_left (by rw [hlen]; exact hold)]
    have hgen : nextGenerations cfg s i (slotAt s (pops cfg s i + k)) =
        s.generations (slotAt s (pops cfg s i + k)) := nextGenerations_kept hs hi (by omega)
    simp only [List.getElem_map, List.getElem_drop, List.getElem_take, getElem_entries]
    rw [settle, ← nextPackets_kept hs hi (by omega), ← nextDone_kept hs hi (by omega) (by omega),
      placeEntry, hgen]
    rfl
  · rw [List.getElem_append_right (by rw [hlen]; omega)]
    have hkept : kept cfg s i = s.count := kept_of_pushes (by omega)
    have hplace : pops cfg s i + k = s.count + (k - (kept cfg s i - pops cfg s i)) := by omega
    simp only [freshEntries_eq hs hi, hlen, List.getElem_map, List.getElem_range]
    rw [hplace]

/-! ## What retires -/

omit hs in
theorem entries_take {k : ℕ} (hk : k ≤ s.count) :
    (entries s).take k = (List.range k).map (entryAt s) := by
  rw [entries, ← List.map_take, List.take_range, Nat.min_eq_left hk]

omit hs in
/-- The entries that retire are the oldest `pops`. -/
theorem take_pops_tag (hs : RingInv s) (hle : pops cfg s i ≤ s.count) :
    ((entries s).take (pops cfg s i)).map Entry.tag = retiredTags cfg s i := by
  rw [retiredTags_eq hs, entries_take hle, List.map_map]
  rfl

theorem entryAt_zero : entryAt s 0 =
    ⟨⟨s.head, s.generations s.head⟩, s.packets s.head, s.done s.head⟩ := by
  have hslot : slotAt s 0 = s.head := Ring.offset_zero hs.head_lt
  rw [entryAt, hslot]

theorem entryAt_one : entryAt s 1 =
    ⟨⟨s.head1, s.generations s.head1⟩, s.packets s.head1, s.done s.head1⟩ := by
  have hslot : slotAt s 1 = s.head1 := hs.head1_eq_offset.symm
  rw [entryAt, hslot]

omit hs in
/-- The head and CQ[1] retire together only as a pair. -/
theorem pairOk_of_retire1Fire (h : retire1Fire cfg s i = true) :
    pairOk (s.packets s.head) (s.packets s.head1) = true := by
  have hvalid := (retire1Fire_spec h).2.1
  simp only [retire1Valid, Bool.and_eq_true] at hvalid
  exact hvalid.2

end Edge

/-! ## Controls -/

section Controls

variable {cfg : Config} {s : State} {i : Input}

@[simp] theorem controls_finished (p : RetirePacket) (r : ResultPacket) :
    (finished p r).controls = p.controls := rfl

@[simp] theorem controls_finished1 (p : RetirePacket) (r : ResultPacket) :
    (finished1 p r).controls = p.controls := rfl

@[simp] theorem controls_mergeFinish (own n : RetirePacket) :
    (mergeFinish own n).controls = own.controls := rfl

/-- **The head retires under the controls it was stored with.** -/
theorem controls_retire (h : retireFire cfg s i = true) :
    (retire cfg s i).controls = (s.packets s.head).controls := by
  have hvalid : retireValid cfg s i = true := by
    simp only [retireFire, Bool.and_eq_true] at h
    exact h.1
  unfold retire
  rw [if_pos hvalid]
  split_ifs <;> simp

/-- So does the entry behind it. -/
theorem controls_retire1 (h : retire1Fire cfg s i = true) :
    (retire1 cfg s i).controls = (s.packets s.head1).controls := by
  have hvalid := (retire1Fire_spec h).2.1
  unfold retire1
  rw [if_pos hvalid]
  split_ifs <;> simp

/-- An entry no fault reaches keeps its controls. -/
theorem controls_settle (e : Entry)
    (h0 : finishAccept cfg s i = true → i.result.producer = e.tag → resultFault cfg i = false)
    (h2 : finish2Accept cfg s i = true → i.result2.producer = e.tag →
      result2Fault cfg i = false) :
    (settle cfg s i e).packet.controls = e.packet.controls := by
  unfold settle finishedPacket
  split_ifs with hf2 hf1 hf0
  · simp [finishInto, h2 hf2.1 hf2.2]
  · simp
  · simp [finishInto, h0 hf0.1 hf0.2]
  · rfl

end Controls

end Completion
end SloPPC603
