import SloPPC603.Rename.Table

/-!
# The two recoveries of the rename unit

`ppc_rename.sv` rebuilds its table after a recovery in one of two ways, chosen by
`USE_UNSHIFTED_RECOVERY`.  The older walks the compacted list of the entries that
survive the recovery and the edge's retirement.  The other walks the queue as it
stood, before the retirement is known, notes the age of each winner, and drops
the winners of age zero and one that retire.  This file has the older walk and
the outputs the completion queue makes for it, and proves the two equal.

* `Survivors`, `survivors` — `recovery_survivor_*`.
* `legacyRecovered`, `stepWith`, `machineWith` — the rename unit under either
  setting.
* `SameArrays` — the agreement of the four arrays.
* `legacyWalk_eq` — the compacted walk makes the puts of the other that stay.
* `recovery_paths_agree` — the two settings agree on every accepted recovery.
-/

namespace SloPPC603
namespace Rename

open Clocked (lastAt)

/-! ## The survivor outputs of the completion queue -/

/-- `recovery_survivor_count_o`, `recovery_survivor_packet_o` and
`recovery_survivor_tag_o`. -/
structure Survivors where
  count : ℕ
  packet : ℕ → RetirePacket
  tag : ℕ → CompletionTag

section Survivor

variable (cfg : Completion.Config) (s : Completion.State) (i : Completion.Input)

/-- `by_age_packet`: the entries the recovery retains, by age. -/
def byAgePacket (age : ℕ) : RetirePacket :=
  if age < Completion.retained cfg s i then s.packets (Completion.ringOffset s.head age)
  else default

/-- `by_age_tag`. -/
def byAgeTag (age : ℕ) : CompletionTag :=
  if age < Completion.retained cfg s i then
    ⟨Completion.ringOffset s.head age, s.generations (Completion.ringOffset s.head age)⟩
  else default

/-- The survivors of an accepted recovery, oldest first; the retirement of the edge
only shifts them. -/
def survivors : Survivors :=
  if cfg.pivot && Completion.redirectAccepted cfg s i then
    { count := (Completion.retained cfg s i + 16 - (Completion.retireFire cfg s i).toNat -
        (Completion.retire1Fire cfg s i).toNat) % 8
      packet := fun k =>
        if Completion.retire1Fire cfg s i then byAgePacket cfg s i (k + 2)
        else if Completion.retireFire cfg s i then byAgePacket cfg s i (k + 1)
        else byAgePacket cfg s i k
      tag := fun k =>
        if Completion.retire1Fire cfg s i then byAgeTag cfg s i (k + 2)
        else if Completion.retireFire cfg s i then byAgeTag cfg s i (k + 1)
        else byAgeTag cfg s i k }
  else { count := 0, packet := fun _ => default, tag := fun _ => default }

end Survivor

/-- The survivors are the retained entries behind those that retire. -/
theorem survivors_eq {cfg : Completion.Config} {s : Completion.State} {i : Completion.Input}
    (hpivot : cfg.pivot = true) (hacc : Completion.redirectAccepted cfg s i = true)
    (hpop : Completion.pops cfg s i ≤ Completion.retained cfg s i)
    (hret : Completion.retained cfg s i ≤ cqDepth) : survivors cfg s i =
      { count := Completion.retained cfg s i - Completion.pops cfg s i
        packet := fun k => byAgePacket cfg s i (k + Completion.pops cfg s i)
        tag := fun k => byAgeTag cfg s i (k + Completion.pops cfg s i) } := by
  have hback := @Completion.retireFire_of_retire1Fire cfg s i
  rw [survivors, hpivot, hacc, Bool.and_self, if_pos rfl]
  unfold Completion.pops at hpop ⊢
  unfold cqDepth at hret
  cases h1 : Completion.retire1Fire cfg s i with
  | true =>
    rw [hback h1, h1] at hpop
    simp only [hback h1, Bool.toNat_true, if_true, Survivors.mk.injEq, and_true] at hpop ⊢
    omega
  | false =>
    rw [h1] at hpop
    cases h0 : Completion.retireFire cfg s i with
    | true =>
      rw [h0] at hpop
      simp only [Bool.toNat_true, Bool.toNat_false, Bool.false_eq_true, if_true, if_false,
        Survivors.mk.injEq, and_true] at hpop ⊢
      omega
    | false =>
      simp only [Bool.toNat_false, Bool.false_eq_true, if_false, Nat.add_zero,
        Survivors.mk.injEq, and_true]
      omega

/-! ## The older walk -/

/-- The registers of the older walk. -/
structure Walk where
  valid : BitVec 3 → Bool := fun _ => false
  ready : BitVec 3 → Bool := fun _ => false
  mapValid : BitVec 5 → Bool := fun _ => false
  mapTag : BitVec 5 → BitVec 3 := fun _ => 0

/-- What one owned slot puts into the walk. -/
def Walk.put (w : Walk) (reg : BitVec 5) (tag : BitVec 3) (ready : Bool) : Walk where
  valid := Function.update w.valid tag true
  ready := Function.update w.ready tag ready
  mapValid := Function.update w.mapValid reg true
  mapTag := Function.update w.mapTag reg tag

section Legacy

variable (s : State) (i : Port) (v : Survivors)

/-- One survivor of the walk: its destination, then its update base. -/
def legacyEntry (w : Walk) (age : ℕ) : Walk :=
  let p := v.packet age
  let tag := v.tag age
  let w :=
    if decide (age < v.count) && p.gprWrite && owns s p.tag tag then
      w.put p.gpr p.tag (readyNow s i p.tag tag)
    else w
  if decide (age < v.count) && p.updateOwned && s.valid p.updateTag &&
      s.owners p.updateTag = tag then
    w.put p.updateGpr p.updateTag true
  else w

/-- The walk over the survivors, oldest first. -/
def legacyWalk : Walk := (List.range cqDepth).foldl (legacyEntry s i v) {}

/-- The registers after a recovery in the older setting. -/
def legacyRecovered : State :=
  let w := legacyWalk s i v
  { valid := w.valid
    ready := w.ready
    values := (woken s i).values
    owners := s.owners
    mapValid := w.mapValid
    mapTag := w.mapTag }

/-- One clock edge under either setting of `USE_UNSHIFTED_RECOVERY`. -/
def stepWith (unshifted : Bool) : State :=
  if i.rstN && i.recovery && !unshifted then legacyRecovered s i v else step s i

end Legacy

/-- One clock edge of the two units under either setting. -/
def System.stepWith (unshifted : Bool) (cfg : Completion.Config) (s : System) (i : Input) :
    System where
  cq := Completion.step cfg s.cq (cqPorts s i)
  rename := Rename.stepWith s.rename (renamePort cfg s i) (survivors cfg s.cq (cqPorts s i))
    unshifted

/-- The two units under either setting. -/
def machineWith (unshifted : Bool) (cfg : Completion.Config) : Clocked.Machine System Input where
  Initial := fun s => ∃ s₀ i, i.cq.rstN = false ∧ s = System.stepWith unshifted cfg s₀ i
  step := System.stepWith unshifted cfg

/-! ## The agreement -/

/-- The same slots held, the same of them ready, the same registers mapped, each to
the same slot. -/
structure SameArrays (s t : State) : Prop where
  valid : s.valid = t.valid
  ready : s.ready = t.ready
  mapValid : s.mapValid = t.mapValid
  mapTag : ∀ r, s.mapValid r = true → s.mapTag r = t.mapTag r

section Puts

variable {s : State} {i : Port} {v : Survivors}

/-- One put into the older walk. -/
def Put.intoWalk (w : Walk) (p : Put) : Walk := w.put p.write.reg p.write.slot p.ready

/-- What the older walk leaves: at each slot and each register the last put. -/
theorem foldl_intoWalk (l : List Put) (w : Walk) :
    (l.foldl Put.intoWalk w).valid =
        l.foldl (fun f p => Function.update f p.write.slot true) w.valid ∧
      (l.foldl Put.intoWalk w).ready =
        l.foldl (fun f p => Function.update f p.write.slot p.ready) w.ready ∧
      (l.foldl Put.intoWalk w).mapValid =
        l.foldl (fun f p => Function.update f p.write.reg true) w.mapValid ∧
      (l.foldl Put.intoWalk w).mapTag =
        l.foldl (fun f p => Function.update f p.write.reg p.write.slot) w.mapTag := by
  induction l generalizing w with
  | nil => exact ⟨rfl, rfl, rfl, rfl⟩
  | cons p l ih => exact ih (p.intoWalk w)

/-- **Two walks that make the same puts, but for those that retire, leave the same
arrays.** -/
theorem sameArrays_of_puts {goneP stayP : List Put} (hputs : puts s i = goneP ++ stayP)
    (hgone : ∀ p ∈ goneP, i.recoveryRemove p.age = true)
    (hstay : ∀ p ∈ stayP, i.recoveryRemove p.age = false)
    (hwalk : legacyWalk s i v = stayP.foldl Put.intoWalk {}) :
    SameArrays (recovered s i) (legacyRecovered s i v) := by
  obtain ⟨hvalid, hready, hmapped, htag⟩ := recovered_spec hputs hgone hstay
  obtain ⟨hv, hr, hmv, hmt⟩ := foldl_intoWalk stayP {}
  rw [← hwalk] at hv hr hmv hmt
  have hnot : ∀ t, (recovered s i).valid t = false → (recovered s i).ready t = false := by
    intro t ht
    show ((recovered s i).valid t && (rebuild s i).ready t) = false
    rw [ht, Bool.false_and]
  constructor
  · funext t
    show _ = (legacyWalk s i v).valid t
    rw [hvalid, hv, Clocked.foldl_update (fun p : Put => p.write.slot) (fun _ => true)]
    cases lastAt (fun p : Put => p.write.slot) t stayP <;> rfl
  · funext t
    show _ = (legacyWalk s i v).ready t
    rw [hr, Clocked.foldl_update (fun p : Put => p.write.slot) Put.ready]
    cases hl : lastAt (fun p : Put => p.write.slot) t stayP with
    | some p => exact hready t p hl
    | none => exact hnot t (by rw [hvalid, hl]; rfl)
  · funext r
    show _ = (legacyWalk s i v).mapValid r
    rw [hmapped, hmv, Clocked.foldl_update (fun p : Put => p.write.reg) (fun _ => true)]
    cases lastAt (fun p : Put => p.write.reg) r stayP <;> rfl
  · intro r hmap
    show _ = (legacyWalk s i v).mapTag r
    rw [hmt, Clocked.foldl_update (fun p : Put => p.write.reg) (fun p : Put => p.write.slot)]
    rw [hmapped] at hmap
    obtain ⟨p, hp⟩ := Option.isSome_iff_exists.1 hmap
    rw [htag r p hp, hp]
    rfl

/-- The two walks see the same entry at ages `shift` apart. -/
structure SameEntry (s : State) (i : Port) (v : Survivors) (age k : ℕ) : Prop where
  retained : (i.recoveryRename age).retained = decide (k < v.count)
  entry : k < v.count → i.recoveryRename age =
    { retained := true
      gprWrite := (v.packet k).gprWrite
      gpr := (v.packet k).gpr
      tag := (v.packet k).tag
      updateOwned := (v.packet k).updateOwned
      updateGpr := (v.packet k).updateGpr
      updateTag := (v.packet k).updateTag
      producer := v.tag k }

/-- One survivor makes the puts of its entry. -/
theorem legacyEntry_eq {age k : ℕ} (h : SameEntry s i v age k) (w : Walk) :
    legacyEntry s i v w k = (entryPuts s i age).foldl Put.intoWalk w := by
  by_cases hk : k < v.count
  · rw [entryPuts, h.entry hk]
    simp only [legacyEntry, mainOwned, updateOwned, hk, decide_true, Bool.true_and]
    split_ifs <;> rfl
  · have hret := h.retained
    rw [decide_eq_false hk] at hret
    simp [legacyEntry, entryPuts, mainOwned, updateOwned, hk, hret]

/-- Walks whose entries agree `shift` ages apart make the same puts, but for those of
the first `shift` ages. -/
theorem sameArrays_of_shift {shift : ℕ}
    (hremove : ∀ age, i.recoveryRemove age = decide (age < shift))
    (hentry : ∀ k, SameEntry s i v (shift + k) k)
    (hdepth : ∀ age, cqDepth ≤ age → (i.recoveryRename age).retained = false) :
    SameArrays (recovered s i) (legacyRecovered s i v) := by
  have hbeyond : ∀ l : List ℕ, l.flatMap (fun k => entryPuts s i (cqDepth + k)) = [] := by
    intro l
    rw [List.flatMap_eq_nil_iff]
    intro k _
    simp [entryPuts, mainOwned, updateOwned, hdepth (cqDepth + k) (Nat.le_add_right _ _)]
  -- the walk over one more turn of the ring makes no further put
  have hputs : puts s i = (List.range shift).flatMap (entryPuts s i) ++
      (List.range cqDepth).flatMap (fun k => entryPuts s i (shift + k)) := by
    have hlong : (List.range (shift + cqDepth)).flatMap (entryPuts s i) = puts s i := by
      rw [Nat.add_comm, List.range_add, List.flatMap_append, List.flatMap_map, hbeyond,
        List.append_nil]
      rfl
    rw [← hlong, List.range_add, List.flatMap_append, List.flatMap_map]
  have hage : ∀ p age, p ∈ entryPuts s i age → p.age = age := by
    intro p age hp
    rw [entryPuts] at hp
    rcases List.mem_append.1 hp with h | h <;>
      · split_ifs at h
        · rw [List.mem_singleton.1 h]
        · cases h
  refine sameArrays_of_puts hputs ?_ ?_ ?_
  · intro p hp
    obtain ⟨age, hlt, hmem⟩ := List.mem_flatMap.1 hp
    rw [hremove, hage p age hmem, decide_eq_true (List.mem_range.1 hlt)]
  · intro p hp
    obtain ⟨k, -, hmem⟩ := List.mem_flatMap.1 hp
    rw [hremove, hage p _ hmem, decide_eq_false (by omega)]
  · rw [legacyWalk, List.foldl_flatMap]
    congr 1
    funext w k
    exact legacyEntry_eq (hentry k) w

end Puts

/-! ## The queue's outputs -/

section Wired

variable {cfg : Completion.Config} {s : System} {i : Input}

/-- The entry `pops` ages back is the survivor at the place of the compacted list. -/
theorem sameEntry_survivors (hs : Completion.RingInv s.cq)
    (hacc : Completion.redirectAccepted cfg s.cq (cqPorts s i) = true)
    (hpop : Completion.pops cfg s.cq (cqPorts s i) ≤ Completion.kept cfg s.cq (cqPorts s i))
    (k : ℕ) : SameEntry s.rename (renamePort cfg s i) (survivors cfg s.cq (cqPorts s i))
      (Completion.pops cfg s.cq (cqPorts s i) + k) k := by
  have hret : Completion.kept cfg s.cq (cqPorts s i) =
      Completion.retained cfg s.cq (cqPorts s i) := by rw [Completion.kept, if_pos hacc]
  have hle : Completion.retained cfg s.cq (cqPorts s i) ≤ s.cq.count := Completion.retained_le
  have hcount := hs.count_le
  rw [hret] at hpop
  cases hpivot : cfg.pivot with
  | false =>
    have hnone : survivors cfg s.cq (cqPorts s i) =
        ⟨0, fun _ => default, fun _ => default⟩ := by simp [survivors, hpivot]
    rw [hnone]
    exact ⟨by simp [renamePort, recoveryRename, hpivot], fun h => absurd h (Nat.not_lt_zero k)⟩
  | true =>
    rw [survivors_eq hpivot hacc hpop (hle.trans hcount)]
    constructor
    · show (cfg.pivot && decide (_ < _)) = decide (k < Completion.retained cfg s.cq (cqPorts s i) -
        Completion.pops cfg s.cq (cqPorts s i))
      rw [hpivot, Bool.true_and, decide_eq_decide]
      omega
    · intro hk
      have hlt : k + Completion.pops cfg s.cq (cqPorts s i) <
          Completion.retained cfg s.cq (cqPorts s i) := by
        dsimp only at hk
        omega
      simp only [byAgePacket, byAgeTag, if_pos hlt]
      show recoveryRename cfg s i _ = _
      rw [Nat.add_comm, recoveryRename, hpivot, decide_eq_true hlt]
      rfl

/-- The winners of the two oldest ages retire with their entries. -/
theorem recoveryRemove_eq (age : ℕ) : (renamePort cfg s i).recoveryRemove age =
    decide (age < Completion.pops cfg s.cq (cqPorts s i)) := by
  have hback := @Completion.retireFire_of_retire1Fire cfg s.cq (cqPorts s i)
  show (decide (age = 0) && commit cfg s i || decide (age = 1) && commit1 cfg s i) = _
  unfold Completion.pops commit commit1
  cases h1 : Completion.retire1Fire cfg s.cq (cqPorts s i) with
  | true =>
    rw [hback h1, Bool.and_true, Bool.and_true, ← Bool.decide_or, Bool.toNat_true,
      decide_eq_decide]
    omega
  | false =>
    cases Completion.retireFire cfg s.cq (cqPorts s i) with
    | true =>
      rw [Bool.and_true, Bool.and_false, Bool.or_false, Bool.toNat_true, Bool.toNat_false,
        decide_eq_decide]
      omega
    | false => simp

/-- **The two recoveries leave the same arrays**, whatever the rename unit held. -/
theorem recovered_agree (hs : Completion.RingInv s.cq)
    (hacc : Completion.redirectAccepted cfg s.cq (cqPorts s i) = true)
    (hpop : Completion.pops cfg s.cq (cqPorts s i) ≤ Completion.kept cfg s.cq (cqPorts s i)) :
    SameArrays (recovered s.rename (renamePort cfg s i))
      (legacyRecovered s.rename (renamePort cfg s i) (survivors cfg s.cq (cqPorts s i))) := by
  have hle : Completion.retained cfg s.cq (cqPorts s i) ≤ s.cq.count := Completion.retained_le
  have hcount := hs.count_le
  refine sameArrays_of_shift recoveryRemove_eq (sameEntry_survivors hs hacc hpop) ?_
  intro age hage
  show (cfg.pivot && decide (_ < _)) = false
  rw [decide_eq_false (by omega), Bool.and_false]

/-- The rules of the queue's inputs. -/
structure QueueRules (cfg : Completion.Config) (s : System) (i : Input) : Prop where
  input : Completion.LegalInput cfg s.cq (cqPorts s i)
  recovery : Completion.LegalRecovery cfg s.cq (cqPorts s i)

/-- The queue keeps its ring beside a rename unit of either setting. -/
theorem ringInv_with {unshifted : Bool} {r : Clocked.Run (machineWith unshifted cfg)} {n : ℕ}
    (h : r.Obeys (QueueRules cfg) n) : Completion.RingInv (r.state n).cq := by
  refine r.invariant (I := fun s => Completion.RingInv s.cq) ?_ ?_ h
  · rintro s ⟨s₀, i, hrst, rfl⟩
    have hreset : (System.stepWith unshifted cfg s₀ i).cq = Completion.resetState := by
      show Completion.step cfg s₀.cq (cqPorts s₀ i) = _
      rw [Completion.step, if_neg (by simp [cqPorts, hrst])]
    rw [hreset]
    exact Completion.ringInv_resetState
  · intro s i hs hi
    exact Completion.ringInv_step
      (Completion.pops_le_kept_of_legal hs hi.input hi.recovery) hs hi.input

end Wired

/-- **The unshifted recovery and the older walk agree** on every accepted recovery
from every state that either build reaches. -/
theorem recovery_paths_agree (cfg : Completion.Config) (unshifted : Bool)
    (r : Clocked.Run (machineWith unshifted cfg)) (n : ℕ) (h : r.Obeys (QueueRules cfg) (n + 1))
    (hacc : Completion.redirectAccepted cfg (r.state n).cq
      (cqPorts (r.state n) (r.input n)) = true) :
    SameArrays (System.stepWith true cfg (r.state n) (r.input n)).rename
      (System.stepWith false cfg (r.state n) (r.input n)).rename := by
  have hs := ringInv_with (h.mono (Nat.le_succ n))
  obtain ⟨hi, hrec⟩ := h n (Nat.lt_succ_self n)
  have hrst : (renamePort cfg (r.state n) (r.input n)).rstN = true := hi.running
  have hrecovery : (renamePort cfg (r.state n) (r.input n)).recovery = true := hacc
  have hnew : (System.stepWith true cfg (r.state n) (r.input n)).rename =
      recovered (r.state n).rename (renamePort cfg (r.state n) (r.input n)) := by
    simp [System.stepWith, Rename.stepWith, step, hrst, hrecovery]
  have hold : (System.stepWith false cfg (r.state n) (r.input n)).rename =
      legacyRecovered (r.state n).rename (renamePort cfg (r.state n) (r.input n))
        (survivors cfg (r.state n).cq (cqPorts (r.state n) (r.input n))) := by
    simp [System.stepWith, Rename.stepWith, hrst, hrecovery]
  rw [hnew, hold]
  exact recovered_agree hs hacc (Completion.pops_le_kept_of_legal hs hi hrec)

/-- A run of the older setting that allocates two writers of one register and then
recovers to the younger while the elder retires. -/
def keepRun : Clocked.Run (machineWith false ⟨true, true, true, true⟩) where
  start := System.stepWith false ⟨true, true, true, true⟩
    ⟨Completion.resetState, ⟨fun _ => false, fun _ => false, fun _ => 0, fun _ => default,
      fun _ => false, fun _ => 0⟩⟩ { cq := { rstN := false } }
  initial := ⟨_, { cq := { rstN := false } }, rfl, rfl⟩
  input
    | 0 => { cq := { allocValid := true, allocFinished := true, alloc1Valid := true
                     alloc := { (default : RetirePacket) with gprWrite := true, gpr := 3 }
                     alloc1 := { (default : RetirePacket) with gprWrite := true, gpr := 3 } } }
    | _ => { cq := { redirectValid := true, redirectKeepPivot := true
                     redirectPivot := ⟨1, 1⟩, retireReady := true } }

/-- Both settings leave the register with the younger writer's slot. -/
theorem recovery_paths_agree_keep :
    SameArrays (System.stepWith true ⟨true, true, true, true⟩ (keepRun.state 1) (keepRun.input 1)).rename
      (System.stepWith false ⟨true, true, true, true⟩ (keepRun.state 1) (keepRun.input 1)).rename ∧
    (keepRun.state 2).rename.mapValid 3 = true ∧ (keepRun.state 2).rename.mapTag 3 = 1 ∧
      (keepRun.state 2).rename.valid 0 = false := by
  have hlegal : keepRun.Obeys (QueueRules ⟨true, true, true, true⟩) 2 := by
    intro k hk
    interval_cases k <;>
      exact ⟨⟨rfl, by decide, by decide, nofun⟩, ⟨nofun, nofun, nofun⟩⟩
  exact ⟨recovery_paths_agree _ false keepRun 1 hlegal (by decide), by decide, by decide,
    by decide⟩

end Rename
end SloPPC603
