import SloPPC603.Rename.Table

/-!
# The rename table follows the queue

One edge of the two units: the releases are the slots of the retiring entries, the
walk of a recovery visits the entries it keeps, and the allocations are the writes
of the entries that enter.  So the rename registers are at every time the table of
the writes in flight.

A result that faults clears its entry's write permissions and leaves the entry its
slot.  The walk goes by the permission, so a recovery that keeps such an entry
drops the slot; `KeepsClean` rules that out.

* `KeepsClean` — no recovery keeps an entry whose fault cleared its write.
* `SlotInv`, `slotInv_step` — the table over a run.
-/

namespace SloPPC603
namespace Rename

open Completion (Entry entries entryAt)
open Clocked (lastAt)

/-! ## The invariant -/

/-- What holds of a stored packet: a destination that is written holds a slot, and
a base that holds one is written unless the entry has faulted. -/
structure PacketOk (p : RetirePacket) : Prop where
  gpr : p.gprWrite = true → p.renameOwned = true
  base : p.updateOwned = true → p.updateWrite = true ∨ p.illegal = true ∨ p.dataFault ≠ .ok

/-- The rename registers are the table of the writes in flight. -/
structure SlotInv (s : System) : Prop where
  ring : Completion.RingInv s.cq
  packets : ∀ e ∈ entries s.cq, PacketOk e.packet
  holds : Holds (writes s.cq) s.rename

/-- No recovery keeps an entry whose fault cleared its register write. -/
def KeepsClean (cfg : Completion.Config) (s : System) (i : Input) : Prop :=
  Completion.redirectAccepted cfg s.cq (cqPorts s i) = true →
    ∀ e ∈ staying cfg s i, e.packet.renameOwned = true → e.packet.gprWrite = true

variable {cfg : Completion.Config} {s : System} {i : Input}

/-! ## Packets -/

section Packets

theorem isFault_marks {r : ResultPacket} {p : RetirePacket}
    (h : Completion.isFault cfg r = true) :
    (Completion.faulted p r).illegal = true ∨ (Completion.faulted p r).dataFault ≠ .ok := by
  simp only [Completion.isFault, Bool.or_eq_true, Bool.and_eq_true, decide_eq_true_eq] at h
  cases hf : r.fault with
  | true => exact Or.inl hf
  | false =>
    right
    simp only [Completion.faulted, hf, Bool.false_and, Bool.false_eq_true, if_false]
    rcases h with (((((h | h) | h) | h) | h) | h) | ⟨-, h | h⟩
    · rw [hf] at h
      cases h
    all_goals simp [h]

theorem packetOk_finishInto {own : RetirePacket} {r : ResultPacket} {clean : RetirePacket}
    (hp : PacketOk own) :
    PacketOk (Completion.finishInto (Completion.isFault cfg r) own clean
      (Completion.faulted own r)) := by
  unfold Completion.finishInto
  split_ifs with hf
  · exact ⟨fun hg => absurd hg (by simp [Completion.mergeFault, Completion.faulted]),
      fun _ => Or.inr (isFault_marks hf)⟩
  · exact ⟨hp.gpr, hp.base⟩

theorem packetOk_settle {e : Entry} (hp : PacketOk e.packet) :
    PacketOk (Completion.settle cfg s.cq (cqPorts s i) e).packet := by
  simp only [Completion.settle, Completion.finishedPacket]
  split_ifs
  · exact packetOk_finishInto hp
  · exact ⟨hp.gpr, hp.base⟩
  · exact packetOk_finishInto hp
  · exact hp

theorem packetOk_fresh (h : Legal cfg s i) :
    ∀ e ∈ Completion.freshEntries cfg s.cq (cqPorts s i), PacketOk e.packet := by
  intro e he
  rw [Completion.freshEntries, allocFire_eq h, alloc1Fire_eq h] at he
  rcases List.mem_append.1 he with h0 | h1
  · split_ifs at h0 with hv
    · rw [List.mem_singleton] at h0
      subst h0
      have hupd := h.update
      have hdiag := h.diagnostic
      constructor
      · exact fun hg => hg
      · intro hu
        left
        have hown : i.cq.alloc.updateOwned = true := by
          simp only [Completion.normalize, cqPorts, allocation, updateAlloc,
            Bool.and_eq_true] at hu
          exact hu.2
        have hlegal : i.cq.alloc.illegal = false := by
          by_contra hill
          rw [(hdiag (by simpa using hill)).2] at hown
          cases hown
        simp [Completion.normalize, cqPorts, allocation, hupd hown, hlegal]
    · exact absurd h0 List.not_mem_nil
  · split_ifs at h1 with hv
    · rw [List.mem_singleton] at h1
      subst h1
      exact ⟨fun hg => hg, by rintro ⟨⟩⟩
    · exact absurd h1 List.not_mem_nil

theorem packets_step (hI : SlotInv s) (h : Legal cfg s i) :
    ∀ e ∈ entries (System.step cfg s i).cq, PacketOk e.packet := by
  intro e he
  rw [entries_step hI.ring h] at he
  rcases List.mem_append.1 he with hold | hnew
  · obtain ⟨e, hmem, rfl⟩ := List.mem_map.1 hold
    exact packetOk_settle (hI.packets e (mem_of_mem_staying hmem))
  · exact packetOk_fresh h e hnew

end Packets

/-! ## Releases -/

section Releases

/-- The entries that retire. -/
theorem mem_take_pops (hs : Completion.RingInv s.cq) (h : Legal cfg s i) {e : Entry} :
    e ∈ (entries s.cq).take (Completion.pops cfg s.cq (cqPorts s i)) ↔
      (commit cfg s i = true ∧ e = entryAt s.cq 0) ∨
        (commit1 cfg s i = true ∧ e = entryAt s.cq 1) := by
  have hle : Completion.pops cfg s.cq (cqPorts s i) ≤ s.cq.count :=
    (pops_le_kept hs h).trans Completion.kept_le
  have hpops : Completion.pops cfg s.cq (cqPorts s i) =
      (commit cfg s i).toNat + (commit1 cfg s i).toNat := rfl
  have hpair : commit1 cfg s i = true → commit cfg s i = true :=
    Completion.retireFire_of_retire1Fire
  rw [Completion.entries_take hle, List.mem_map]
  simp only [List.mem_range]
  constructor
  · rintro ⟨k, hk, rfl⟩
    rw [hpops] at hk
    cases h0 : commit cfg s i <;> cases h1 : commit1 cfg s i <;>
      simp only [h0, h1, Bool.toNat_true, Bool.toNat_false] at hk hpair
    · omega
    · exact nomatch (hpair trivial)
    · left
      have hzero : k = 0 := by omega
      rw [hzero]
      exact ⟨rfl, rfl⟩
    · obtain hzero | hone : k = 0 ∨ k = 1 := by omega
      · left
        rw [hzero]
        exact ⟨rfl, rfl⟩
      · right
        rw [hone]
        exact ⟨rfl, rfl⟩
  · rintro (⟨h0, rfl⟩ | ⟨h1, rfl⟩)
    · exact ⟨0, by rw [hpops, h0, Bool.toNat_true]; omega, rfl⟩
    · exact ⟨1, by rw [hpops, h1, hpair h1]; decide, rfl⟩

/-- The head releases what it holds. -/
theorem retireO_eq (hs : Completion.RingInv s.cq) (hc : commit cfg s i = true) :
    (retireO cfg s i).controls = (entryAt s.cq 0).packet.controls ∧
      Completion.retireTag s.cq = (entryAt s.cq 0).tag := by
  rw [Completion.entryAt_zero hs]
  exact ⟨Completion.controls_retire hc, Completion.retireTag_eq hs hc⟩

/-- So does CQ[1], which holds no base. -/
theorem retire1O_eq (hI : SlotInv s) (h : Legal cfg s i) (hc : commit1 cfg s i = true) :
    (retire1O cfg s i).controls = (entryAt s.cq 1).packet.controls ∧
      Completion.retire1Tag s.cq = (entryAt s.cq 1).tag ∧
      (entryAt s.cq 1).packet.updateOwned = false := by
  have hspec := Completion.retire1Fire_spec hc
  have hpair := Completion.pairOk_of_retire1Fire hc
  have hmem : entryAt s.cq 1 ∈ entries s.cq := Completion.mem_entries.2 ⟨1, hspec.2.2.2, rfl⟩
  have hok := hI.packets _ hmem
  have hsecond := h.second hspec.2.2.1
  rw [Completion.entryAt_one hI.ring] at hok hsecond ⊢
  refine ⟨Completion.controls_retire1 hc, Completion.retire1Tag_eq hI.ring hc, ?_⟩
  simp only [Completion.pairOk, Bool.and_eq_true, Bool.not_eq_true', decide_eq_true_eq] at hpair
  by_contra hown
  rcases hok.base (by simpa using hown) with hw | hill | hfault
  · rw [hsecond] at hw
    cases hw
  · rw [hpair.1.1.1.1.1.1.1.2] at hill
    cases hill
  · exact hfault hpair.1.1.1.1.1.2

/-- **The releases are the slots of the retiring entries.** -/
theorem released_iff (hI : SlotInv s) (h : Legal cfg s i) (r : BitVec 5) (t : BitVec 3) :
    (∃ p ∈ released s.rename (renamePort cfg s i), p.reg = r ∧ p.tag = t) ↔
      ∃ w ∈ ((entries s.cq).take
        (Completion.pops cfg s.cq (cqPorts s i))).flatMap entryWrites,
        w.reg = r ∧ w.slot = t := by
  have hread : ∀ p q : RetirePacket, p.controls = q.controls →
      p.renameOwned = q.renameOwned ∧ p.gpr = q.gpr ∧ p.tag = q.tag ∧
        p.updateOwned = q.updateOwned ∧ p.updateGpr = q.updateGpr ∧
        p.updateTag = q.updateTag := by
    intro p q heq
    simp only [RetirePacket.controls, RetirePacket.mk.injEq] at heq
    tauto
  have howns : ∀ e w, e ∈ (entries s.cq).take (Completion.pops cfg s.cq (cqPorts s i)) →
      w ∈ entryWrites e → owns s.rename w.slot w.producer = true := by
    intro e w he hw
    exact hI.holds.owns (List.mem_flatMap.2 ⟨e, List.mem_of_mem_take he, hw⟩)
  simp only [List.mem_flatMap, mem_take_pops hI.ring h]
  constructor
  · rintro ⟨p, hp, rfl, rfl⟩
    rw [released, List.mem_filter] at hp
    obtain ⟨hmem, hmatch⟩ := hp
    simp only [Bool.and_eq_true] at hmatch
    change p ∈ releases cfg s i at hmem
    simp only [releases, List.mem_cons, List.not_mem_nil, or_false] at hmem
    rcases hmem with rfl | rfl | rfl
    · simp only [Bool.and_eq_true] at hmatch
      obtain ⟨⟨hc, hown⟩, -⟩ := hmatch
      obtain ⟨hctl, -⟩ := retireO_eq hI.ring hc
      obtain ⟨h1, h2, h3, -⟩ := hread _ _ hctl
      rw [h1] at hown
      exact ⟨⟨(entryAt s.cq 0).packet.gpr, (entryAt s.cq 0).packet.tag, (entryAt s.cq 0).tag,
        false⟩, ⟨entryAt s.cq 0, Or.inl ⟨hc, rfl⟩, by simp [entryWrites, hown]⟩, h2.symm, h3.symm⟩
    · simp only [Bool.and_eq_true] at hmatch
      obtain ⟨⟨hc, hown⟩, -⟩ := hmatch
      obtain ⟨hctl, -⟩ := retire1O_eq hI h hc
      obtain ⟨h1, h2, h3, -⟩ := hread _ _ hctl
      rw [h1] at hown
      exact ⟨⟨(entryAt s.cq 1).packet.gpr, (entryAt s.cq 1).packet.tag, (entryAt s.cq 1).tag,
        false⟩, ⟨entryAt s.cq 1, Or.inr ⟨hc, rfl⟩, by simp [entryWrites, hown]⟩, h2.symm, h3.symm⟩
    · simp only [Bool.and_eq_true] at hmatch
      obtain ⟨⟨hc, hown⟩, -⟩ := hmatch
      obtain ⟨hctl, -⟩ := retireO_eq hI.ring hc
      obtain ⟨-, -, -, h4, h5, h6⟩ := hread _ _ hctl
      rw [h4] at hown
      exact ⟨⟨(entryAt s.cq 0).packet.updateGpr, (entryAt s.cq 0).packet.updateTag,
        (entryAt s.cq 0).tag, true⟩, ⟨entryAt s.cq 0, Or.inl ⟨hc, rfl⟩,
          by simp [entryWrites, hown]⟩, h5.symm, h6.symm⟩
  · rintro ⟨w, ⟨e, he, hw⟩, rfl, rfl⟩
    have hown := howns e w ((mem_take_pops hI.ring h).2 he) hw
    have hmem : ∀ p ∈ releases cfg s i, p.valid = true → owns s.rename p.tag p.producer = true →
        p ∈ released s.rename (renamePort cfg s i) := by
      intro p hp hv hmatch
      rw [released, List.mem_filter]
      exact ⟨hp, by rw [hv, hmatch]; rfl⟩
    rcases he with ⟨hc, rfl⟩ | ⟨hc, rfl⟩
    · obtain ⟨hctl, htag⟩ := retireO_eq hI.ring hc
      obtain ⟨h1, h2, h3, h4, h5, h6⟩ := hread _ _ hctl
      rcases List.mem_append.1 hw with hmain | hbase
      · split_ifs at hmain with howned
        · rw [List.mem_singleton] at hmain
          subst hmain
          refine ⟨⟨commit cfg s i && (retireO cfg s i).renameOwned, (retireO cfg s i).gpr,
            (retireO cfg s i).tag, Completion.retireTag s.cq⟩, hmem _ ?_ ?_ ?_, h2, h3⟩
          · exact List.mem_cons_self
          · show (commit cfg s i && (retireO cfg s i).renameOwned) = true
            rw [hc, h1, howned]
            rfl
          · rw [h3, htag]
            exact hown
        · exact absurd hmain List.not_mem_nil
      · split_ifs at hbase with howned
        · rw [List.mem_singleton] at hbase
          subst hbase
          refine ⟨⟨commit cfg s i && (retireO cfg s i).updateOwned, (retireO cfg s i).updateGpr,
            (retireO cfg s i).updateTag, Completion.retireTag s.cq⟩, hmem _ ?_ ?_ ?_, h5, h6⟩
          · simp [releases]
          · show (commit cfg s i && (retireO cfg s i).updateOwned) = true
            rw [hc, h4, howned]
            rfl
          · rw [h6, htag]
            exact hown
        · exact absurd hbase List.not_mem_nil
    · obtain ⟨hctl, htag, hnone⟩ := retire1O_eq hI h hc
      obtain ⟨h1, h2, h3, -⟩ := hread _ _ hctl
      simp only [entryWrites, hnone, Bool.false_eq_true, if_false, List.append_nil] at hw
      split_ifs at hw with howned
      · rw [List.mem_singleton] at hw
        subst hw
        refine ⟨⟨commit1 cfg s i && (retire1O cfg s i).renameOwned, (retire1O cfg s i).gpr,
          (retire1O cfg s i).tag, Completion.retire1Tag s.cq⟩, hmem _ ?_ ?_ ?_, h2, h3⟩
        · simp [releases]
        · show (commit1 cfg s i && (retire1O cfg s i).renameOwned) = true
          rw [hc, h1, howned]
          rfl
        · rw [h3, htag]
          exact hown
      · exact absurd hw List.not_mem_nil

end Releases

/-! ## The recovery walk -/

section Walk

/-- The walk reads the entry of an age. -/
theorem recoveryRename_eq (hs : Completion.RingInv s.cq) {k : ℕ} (hk : k ≤ cqDepth) :
    recoveryRename cfg s i k =
      { retained := cfg.pivot && decide (k < Completion.retained cfg s.cq (cqPorts s i))
        gprWrite := (entryAt s.cq k).packet.gprWrite
        gpr := (entryAt s.cq k).packet.gpr
        tag := (entryAt s.cq k).packet.tag
        updateOwned := (entryAt s.cq k).packet.updateOwned
        updateGpr := (entryAt s.cq k).packet.updateGpr
        updateTag := (entryAt s.cq k).packet.updateTag
        producer := (entryAt s.cq k).tag } := by
  have hslot : Completion.ringOffset s.cq.head k = Completion.slotAt s.cq k :=
    Completion.ringOffset_eq hs.head_lt hk
  rw [recoveryRename, hslot]
  rfl

/-- What the walk puts for an entry that is kept: its writes, less a destination
whose permission is gone. -/
theorem entryPuts_kept (hI : SlotInv s) {k : ℕ}
    (hk : k < Completion.retained cfg s.cq (cqPorts s i)) :
    (entryPuts s.rename (renamePort cfg s i) k).map Put.write =
      (if (entryAt s.cq k).packet.gprWrite then
        [⟨(entryAt s.cq k).packet.gpr, (entryAt s.cq k).packet.tag, (entryAt s.cq k).tag,
          false⟩] else []) ++
      (if (entryAt s.cq k).packet.updateOwned then
        [⟨(entryAt s.cq k).packet.updateGpr, (entryAt s.cq k).packet.updateTag,
          (entryAt s.cq k).tag, true⟩] else []) := by
  have hlt : k < s.cq.count := hk.trans_le Completion.retained_le
  have hcount := hI.ring.count_le
  have hpivot : cfg.pivot = true := by
    by_contra hno
    rw [Completion.retained, if_neg hno] at hk
    exact absurd hk (Nat.not_lt_zero k)
  have hmem : entryAt s.cq k ∈ entries s.cq := Completion.mem_entries.2 ⟨k, hlt, rfl⟩
  have howns : ∀ w ∈ entryWrites (entryAt s.cq k), owns s.rename w.slot w.producer = true :=
    fun w hw => hI.holds.owns (List.mem_flatMap.2 ⟨_, hmem, hw⟩)
  have hrec : (renamePort cfg s i).recoveryRename k = _ :=
    @recoveryRename_eq cfg s i hI.ring k (by omega)
  have hmain : mainOwned s.rename ((renamePort cfg s i).recoveryRename k) =
      (entryAt s.cq k).packet.gprWrite := by
    rw [hrec, mainOwned, hpivot]
    cases hg : (entryAt s.cq k).packet.gprWrite with
    | false => simp
    | true =>
      have hown := howns _ (List.mem_append_left _ (by
        rw [(hI.packets _ hmem).gpr hg, if_pos rfl]
        exact List.mem_singleton.2 rfl))
      simp [hk, hown]
  have hbase : updateOwned s.rename ((renamePort cfg s i).recoveryRename k) =
      (entryAt s.cq k).packet.updateOwned := by
    rw [hrec, updateOwned, hpivot]
    cases hu : (entryAt s.cq k).packet.updateOwned with
    | false => simp
    | true =>
      have hown := howns _ (List.mem_append_right _ (by
        rw [hu, if_pos rfl]
        exact List.mem_singleton.2 rfl))
      simp only [owns, Bool.and_eq_true, decide_eq_true_eq] at hown
      simp [hk, hown.1.2, hown.2]
  rw [entryPuts]
  simp only [hmain, hbase]
  rw [hrec]
  cases (entryAt s.cq k).packet.gprWrite <;> cases (entryAt s.cq k).packet.updateOwned <;> rfl

theorem age_of_mem_entryPuts {st : State} {port : Port} {k : ℕ} {p : Put}
    (hp : p ∈ entryPuts st port k) : p.age = k := by
  rw [entryPuts] at hp
  rcases List.mem_append.1 hp with h0 | h1
  · split_ifs at h0
    · rw [List.mem_singleton.1 h0]
    · exact absurd h0 List.not_mem_nil
  · split_ifs at h1
    · rw [List.mem_singleton.1 h1]
    · exact absurd h1 List.not_mem_nil

/-- Beyond what the recovery keeps the walk puts nothing. -/
theorem entryPuts_removed (hs : Completion.RingInv s.cq) {k : ℕ} (hk : k ≤ cqDepth)
    (hout : ¬ k < Completion.retained cfg s.cq (cqPorts s i)) :
    entryPuts s.rename (renamePort cfg s i) k = [] := by
  have hrec : (renamePort cfg s i).recoveryRename k = _ :=
    @recoveryRename_eq cfg s i hs k hk
  have hmain : mainOwned s.rename ((renamePort cfg s i).recoveryRename k) = false := by
    rw [hrec, mainOwned]
    simp [hout]
  have hbase : updateOwned s.rename ((renamePort cfg s i).recoveryRename k) = false := by
    rw [hrec, updateOwned]
    simp [hout]
  rw [entryPuts]
  simp [hmain, hbase]

/-- The puts of the walk are those of the kept entries. -/
theorem puts_eq (hs : Completion.RingInv s.cq) : puts s.rename (renamePort cfg s i) =
    (List.range (Completion.retained cfg s.cq (cqPorts s i))).flatMap
      (entryPuts s.rename (renamePort cfg s i)) := by
  have hle : Completion.retained cfg s.cq (cqPorts s i) ≤ cqDepth :=
    Completion.retained_le.trans hs.count_le
  obtain ⟨d, hd⟩ := Nat.exists_eq_add_of_le hle
  rw [puts, hd, List.range_add, List.flatMap_append, List.flatMap_map]
  have hnil : ∀ k ∈ List.range d, entryPuts s.rename (renamePort cfg s i)
      (Completion.retained cfg s.cq (cqPorts s i) + k) = [] := by
    intro k hk
    rw [List.mem_range] at hk
    exact entryPuts_removed hs (by omega) (by omega)
  have hrest : (List.range d).flatMap (fun k => entryPuts s.rename (renamePort cfg s i)
      (Completion.retained cfg s.cq (cqPorts s i) + k)) = [] := by
    rw [List.flatMap_eq_nil_iff]
    exact hnil
  rw [hrest, List.append_nil]

/-- The ages that are removed from the walk are those that retire. -/
theorem recoveryRemove_iff (k : ℕ) : (renamePort cfg s i).recoveryRemove k = true ↔
    k < Completion.pops cfg s.cq (cqPorts s i) := by
  have hpops : Completion.pops cfg s.cq (cqPorts s i) =
      (commit cfg s i).toNat + (commit1 cfg s i).toNat := rfl
  have hpair : commit1 cfg s i = true → commit cfg s i = true :=
    Completion.retireFire_of_retire1Fire
  show (((k = 0 : Bool) && commit cfg s i) || ((k = 1 : Bool) && commit1 cfg s i)) = true ↔ _
  rw [hpops]
  cases h0 : commit cfg s i <;> cases h1 : commit1 cfg s i <;> simp_all
  all_goals omega

/-- What one put makes of its slot's ready bit. -/
theorem ready_of_mem_entryPuts {st : State} {port : Port} {k : ℕ} {p : Put}
    (hp : p ∈ entryPuts st port k) :
    p.ready = (p.write.update || readyNow st port p.write.slot p.write.producer) := by
  rw [entryPuts] at hp
  rcases List.mem_append.1 hp with h0 | h1
  · split_ifs at h0
    · rw [List.mem_singleton.1 h0]
      rfl
    · exact absurd h0 List.not_mem_nil
  · split_ifs at h1
    · rw [List.mem_singleton.1 h1]
      rfl
    · exact absurd h1 List.not_mem_nil

/-- **The walk visits what retires, then the writes of the entries that stay.** -/
theorem recovery_puts (hI : SlotInv s) (h : Legal cfg s i)
    (hacc : Completion.redirectAccepted cfg s.cq (cqPorts s i) = true)
    (hclean : KeepsClean cfg s i) : ∃ goneP stayP : List Put,
      puts s.rename (renamePort cfg s i) = goneP ++ stayP ∧
      (∀ p ∈ goneP, (renamePort cfg s i).recoveryRemove p.age = true) ∧
      (∀ p ∈ stayP, (renamePort cfg s i).recoveryRemove p.age = false) ∧
      stayP.map Put.write = (staying cfg s i).flatMap entryWrites ∧
      ∀ p ∈ stayP, p.ready = (p.write.update ||
        readyNow s.rename (renamePort cfg s i) p.write.slot p.write.producer) := by
  have hkept : Completion.kept cfg s.cq (cqPorts s i) =
      Completion.retained cfg s.cq (cqPorts s i) := by rw [Completion.kept, if_pos hacc]
  have hpop := pops_le_kept hI.ring h
  rw [hkept] at hpop
  have hstaying : staying cfg s i = ((List.range (Completion.retained cfg s.cq
      (cqPorts s i))).drop (Completion.pops cfg s.cq (cqPorts s i))).map (entryAt s.cq) := by
    rw [staying, hkept, Completion.entries_take Completion.retained_le, List.map_drop]
  have hdrop : ∀ k ∈ (List.range (Completion.retained cfg s.cq (cqPorts s i))).drop
      (Completion.pops cfg s.cq (cqPorts s i)), Completion.pops cfg s.cq (cqPorts s i) ≤ k ∧
        k < Completion.retained cfg s.cq (cqPorts s i) := by
    intro k hk
    rw [List.range_eq_range', List.drop_range', List.mem_range'_1] at hk
    omega
  have hputs := @puts_eq cfg s i hI.ring
  rw [← List.take_append_drop (Completion.pops cfg s.cq (cqPorts s i))
    (List.range (Completion.retained cfg s.cq (cqPorts s i))), List.flatMap_append] at hputs
  refine ⟨_, _, hputs, ?_, ?_, ?_, ?_⟩
  · intro p hp
    obtain ⟨k, hk, hmem⟩ := List.mem_flatMap.1 hp
    rw [List.take_range, List.mem_range] at hk
    rw [age_of_mem_entryPuts hmem, recoveryRemove_iff]
    omega
  · intro p hp
    obtain ⟨k, hk, hmem⟩ := List.mem_flatMap.1 hp
    rw [age_of_mem_entryPuts hmem, ← Bool.not_eq_true, recoveryRemove_iff]
    exact Nat.not_lt.2 (hdrop k hk).1
  · rw [List.map_flatMap, hstaying, List.flatMap_map]
    refine List.flatMap_congr fun k hk => ?_
    rw [entryPuts_kept hI (hdrop k hk).2]
    have hin : entryAt s.cq k ∈ staying cfg s i := by
      rw [hstaying]
      exact List.mem_map_of_mem hk
    have hsame : (entryAt s.cq k).packet.gprWrite = (entryAt s.cq k).packet.renameOwned := by
      rw [Bool.eq_iff_iff]
      exact ⟨(hI.packets _ (mem_of_mem_staying hin)).gpr, hclean hacc _ hin⟩
    rw [hsame]
    rfl
  · intro p hp
    obtain ⟨k, -, hmem⟩ := List.mem_flatMap.1 hp
    exact ready_of_mem_entryPuts hmem

/-- The writes of the entries that stay are among the writes in flight. -/
theorem staying_sublist (hs : Completion.RingInv s.cq) (h : Legal cfg s i) :
    ((staying cfg s i).flatMap entryWrites).Sublist (writes s.cq) := by
  rw [writes_split hs h]
  exact (List.sublist_append_left _ _).trans (List.sublist_append_right _ _)

/-- **The walk keeps the table of the entries that stay.** -/
theorem holds_recovery (hI : SlotInv s) (h : Legal cfg s i)
    (hacc : Completion.redirectAccepted cfg s.cq (cqPorts s i) = true)
    (hclean : KeepsClean cfg s i) :
    Holds ((staying cfg s i).flatMap entryWrites) (recovered s.rename (renamePort cfg s i)) := by
  obtain ⟨goneP, stayP, hputs, hgone, hstay, hmap, -⟩ := recovery_puts hI h hacc hclean
  exact holds_recovered hI.holds (staying_sublist hI.ring h) hputs hgone hstay hmap

end Walk

/-! ## One edge -/

section Edge

/-- The slots of the ports that fire are free and distinct. -/
theorem fired_slots (h : Legal cfg s i) :
    ((fired s.rename (renamePort cfg s i)).map Prod.fst).Nodup ∧
      ∀ a ∈ fired s.rename (renamePort cfg s i), a.1 ∈ freeSlots s.rename := by
  have h0 := fun hv => allocTag_of_ready (h.slot0 hv)
  have h1 := fun hv => allocTag_of_ready (h.slot1 hv)
  have h2 := fun hv => allocTag_of_ready (h.slot2 hv)
  have hne : ∀ {j k : ℕ}, j < (freeSlots s.rename).length → k < (freeSlots s.rename).length →
      j ≠ k → allocTag s.rename j ≠ allocTag s.rename k :=
    fun hj hk hjk heq => hjk (allocTag_inj hj hk heq)
  rw [fired_eq h]
  constructor
  · split_ifs with hv0 hv1 hv2 hv2 hv1 hv2 hv2
    · have h01 := hne (h0 hv0).1 (h1 hv1).1 (by decide)
      have h02 := hne (h0 hv0).1 (h2 hv2).1 (by decide)
      have h12 := hne (h1 hv1).1 (h2 hv2).1 (by decide)
      simp [h01, h02, h12]
    · simp [hne (h0 hv0).1 (h1 hv1).1 (by decide)]
    · simp [hne (h0 hv0).1 (h2 hv2).1 (by decide)]
    · simp
    · simp [hne (h1 hv1).1 (h2 hv2).1 (by decide)]
    all_goals simp
  · intro a ha
    simp only [List.mem_append] at ha
    rcases ha with (ha | ha) | ha
    · split_ifs at ha with hv
      · rw [List.mem_singleton.1 ha]
        exact (h0 hv).2
      · exact absurd ha List.not_mem_nil
    · split_ifs at ha with hv
      · rw [List.mem_singleton.1 ha]
        exact (h1 hv).2
      · exact absurd ha List.not_mem_nil
    · split_ifs at ha with hv
      · rw [List.mem_singleton.1 ha]
        exact (h2 hv).2
      · exact absurd ha List.not_mem_nil

/-- Nothing is allocated beside a recovery. -/
theorem fired_of_recovery (hacc : Completion.redirectAccepted cfg s.cq (cqPorts s i) = true) :
    fired s.rename (renamePort cfg s i) = [] := by
  have hready : ∀ k, allocReady s.rename (renamePort cfg s i) k = false := by
    intro k
    have hrec : (renamePort cfg s i).recovery = true := hacc
    simp [allocReady, hrec]
  simp [fired, hready]

/-- Without a recovery every entry that does not retire stays. -/
theorem staying_of_not_recovery
    (hacc : Completion.redirectAccepted cfg s.cq (cqPorts s i) = false) :
    staying cfg s i = (entries s.cq).drop (Completion.pops cfg s.cq (cqPorts s i)) := by
  rw [staying, Completion.kept, hacc, if_neg Bool.false_ne_true,
    List.take_of_length_le (by rw [Completion.entries_length])]

/-- **The table over one edge.** -/
theorem holds_step (hI : SlotInv s) (h : Legal cfg s i) (hclean : KeepsClean cfg s i) :
    Holds (writes (System.step cfg s i).cq) (System.step cfg s i).rename := by
  have hrst : (renamePort cfg s i).rstN = true := h.queue.running
  rw [writes_step hI.ring h]
  show Holds _ (Rename.step s.rename (renamePort cfg s i))
  cases hacc : Completion.redirectAccepted cfg s.cq (cqPorts s i) with
  | true =>
    have hrec : (renamePort cfg s i).recovery = true := hacc
    rw [fired_of_recovery hacc, List.map_nil, List.append_nil, Rename.step, hrst, hrec]
    exact holds_recovery hI h hacc hclean
  | false =>
    have hrec : (renamePort cfg s i).recovery = false := hacc
    obtain ⟨hnd, hfree⟩ := fired_slots h
    have hsplit : writes s.cq = ((entries s.cq).take (Completion.pops cfg s.cq
        (cqPorts s i))).flatMap entryWrites ++ (staying cfg s i).flatMap entryWrites := by
      rw [staying_of_not_recovery hacc, ← List.flatMap_append, List.take_append_drop]
      rfl
    have hold := hI.holds
    rw [hsplit] at hold
    have hfreed := holds_freed hold (holds_woken (i := renamePort cfg s i) hold)
      (released_iff hI h)
    rw [Rename.step, hrst, hrec]
    refine holds_foldl_allocate _ hfreed hnd ?_
    intro a ha
    obtain ⟨hlt, hinvalid⟩ := mem_freeSlots.1 (hfree a ha)
    refine ⟨?_, hlt⟩
    have hwoken : (woken s.rename (renamePort cfg s i)).valid = s.rename.valid := by
      rw [woken, (applyWake_eq _).1, (applyWake_eq _).1]
    show ((woken s.rename (renamePort cfg s i)).valid a.1 && _) = false
    rw [hwoken, hinvalid, Bool.false_and]

/-- **The slot invariant survives every edge whose recovery keeps no faulted
writer.** -/
theorem slotInv_step (hI : SlotInv s) (h : Legal cfg s i) (hclean : KeepsClean cfg s i) :
    SlotInv (System.step cfg s i) where
  ring := ringInv_step hI.ring h
  packets := packets_step hI h
  holds := holds_step hI h hclean

end Edge

end Rename
end SloPPC603
