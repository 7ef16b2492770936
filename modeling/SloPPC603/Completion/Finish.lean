import SloPPC603.Clocked.Generation
import SloPPC603.Completion.Writeback

/-!
# A finish reaches its own entry

Results come back by tag, out of order and possibly long after the entry they
were made for has gone.  This file says which entry an accepted result is for.

* `FinishPort`, `portAccept` — the three finish ports as one family.
* `WakeInput`, `wakeValid`, `wake1Valid` — the wakes, and the candidates the first
  is picked from.
* `Numbered` — a slot's generation counts its allocations, modulo 256, and the
  ledger's holder of a slot is the last to have taken it.
* `PresentedFor` — a result made for an allocation comes back before its slot has
  been allocated another 256 times.
* `FinishedBefore`, `undone_run` — an unfinished entry has not been finished.
* `exact_owner_finish` — the whole of it, over a run.
-/

namespace SloPPC603
namespace Completion

open Clocked

/-! ## The ports -/

/-- The three finish ports. -/
inductive FinishPort
  | first
  | second
  | third
  deriving DecidableEq, Repr

section Ports

variable (cfg : Config) (s : State) (i : Input)

/-- The valid bit of a port. -/
def portValid : FinishPort → Bool
  | .first => i.resultValid
  | .second => i.result1Valid
  | .third => i.result2Valid

/-- The result on a port. -/
def portResult : FinishPort → ResultPacket
  | .first => i.result
  | .second => i.result1
  | .third => i.result2

/-- `finish_accept`, `finish1_accept`, `finish2_accept`. -/
def portAccept (p : FinishPort) : Bool :=
  match p with
  | .first => finishAccept cfg s i
  | .second => finish1Accept cfg s i
  | .third => finish2Accept cfg s i

/-- The inputs the first wake is picked from: `wake_sel_i`, `wake_cand_valid_i` and
`wake_cand_i`. -/
structure WakeInput where
  sel : ℕ → Bool
  candValid : ℕ → Bool
  cand : ℕ → ResultPacket

/-- A wake candidate is qualified as the result of the first port is. -/
def wakeCandOk (w : WakeInput) (k : ℕ) : Bool :=
  finishOwner cfg s i (w.candValid k) (w.cand k) &&
    (s.packets (w.cand k).producer.index).gprWrite && !(w.cand k).fault &&
    (w.cand k).dataFault = .ok

/-- `wake_valid_o`: the last selected candidate of the loop decides. -/
def wakeValid (w : WakeInput) : Bool :=
  if w.sel 2 then wakeCandOk cfg s i w 2
  else if w.sel 1 then wakeCandOk cfg s i w 1
  else if w.sel 0 then wakeCandOk cfg s i w 0
  else false

/-- `wake1_valid_o`. -/
def wake1Valid : Bool :=
  finish1Accept cfg s i && (s.packets i.result1.producer.index).gprWrite

/-- The candidate that a one-hot select names. -/
def WakeInput.picked (w : WakeInput) : ℕ := if w.sel 2 then 2 else if w.sel 1 then 1 else 0

/-- The rule asserted of the candidates: one is selected, and it is what the first
port carries. -/
structure WakeAgrees (w : WakeInput) : Prop where
  onehot : (w.sel 0).toNat + (w.sel 1).toNat + (w.sel 2).toNat = 1
  valid : i.resultValid = (w.sel w.picked && w.candValid w.picked)
  result : i.resultValid = true → i.result = w.cand w.picked

end Ports

section Owner

variable {cfg : Config} {s : State} {i : Input} {l : Ledger}

theorem portAccept_owner (p : FinishPort) :
    portAccept cfg s i p = finishOwner cfg s i (portValid i p) (portResult i p) := by
  cases p <;> rfl

/-- Two ports never accept one producer. -/
theorem port_eq_of_producer (hports : PortRules cfg s i) {p q : FinishPort}
    (hp : portAccept cfg s i p = true) (hq : portAccept cfg s i q = true)
    (heq : (portResult i p).producer = (portResult i q).producer) : p = q := by
  have hidx := congrArg CompletionTag.index heq
  cases p <;> cases q
  case first.first | second.second | third.third => rfl
  case first.second => exact absurd ⟨hp, hidx⟩ (port1_apart hports hq)
  case second.first => exact absurd ⟨hq, hidx.symm⟩ (port1_apart hports hp)
  case first.third => exact absurd ⟨hp, hidx⟩ (port2_apart hports hq).1
  case third.first => exact absurd ⟨hq, hidx.symm⟩ (port2_apart hports hp).1
  case second.third => exact absurd ⟨hp, hidx⟩ (port2_apart hports hq).2
  case third.second => exact absurd ⟨hq, hidx.symm⟩ (port2_apart hports hp).2

/-- Under the asserted rule the first wake is the first port's. -/
theorem wakeValid_eq {w : WakeInput} (h : WakeAgrees i w) :
    wakeValid cfg s i w = (finishAccept cfg s i &&
      (s.packets i.result.producer.index).gprWrite && !i.result.fault &&
        i.result.dataFault = .ok) := by
  have hsel : w.sel w.picked = true := by
    have hone := h.onehot
    unfold WakeInput.picked
    cases h2 : w.sel 2 <;> cases h1 : w.sel 1 <;> cases h0 : w.sel 0 <;> simp_all
  have hpick : wakeValid cfg s i w = wakeCandOk cfg s i w w.picked := by
    unfold wakeValid
    unfold WakeInput.picked at hsel ⊢
    split_ifs at hsel ⊢ <;> simp_all
  have hvalid := h.valid
  rw [hsel, Bool.true_and] at hvalid
  rw [hpick, wakeCandOk, ← hvalid]
  cases hv : i.resultValid with
  | true => rw [← h.result hv, finishAccept, hv]
  | false => simp [finishAccept, finishOwner, hv]

/-! ## Who an accepted result is for -/

/-- An accepted result is for an entry of the queue that the edge keeps. -/
theorem accepted_entry (hs : RingInv s) {p : FinishPort} (h : portAccept cfg s i p = true) :
    ∃ k < kept cfg s i, (portResult i p).producer = (entryAt s k).tag := by
  rw [portAccept_owner] at h
  exact exists_of_finishOwner hs h

/-- Its tag is the one the slot's holder was answered. -/
theorem accepted_issued (hI : QueueInv s l) {p : FinishPort}
    (h : portAccept cfg s i p = true) :
    l.issued[l.owner (portResult i p).producer.index]? = some (portResult i p).producer := by
  obtain ⟨k, hk, htag⟩ := accepted_entry hI.ring h
  have hle : kept cfg s i ≤ s.count := kept_le
  rw [htag, entryAt_tag_index]
  exact hI.tagged.live k (by omega)

theorem accepted_live (hI : QueueInv s l) {p : FinishPort} (h : portAccept cfg s i p = true) :
    l.owner (portResult i p).producer.index ∈ (queue s l).live := by
  obtain ⟨k, hk, htag⟩ := accepted_entry hI.ring h
  have hle : kept cfg s i ≤ s.count := kept_le
  rw [htag, entryAt_tag_index]
  exact List.mem_map_of_mem (List.mem_range.2 (by omega))

theorem accepted_lt (hI : QueueInv s l) {p : FinishPort} (h : portAccept cfg s i p = true) :
    l.owner (portResult i p).producer.index < l.issued.length :=
  (List.getElem?_eq_some_iff.1 (accepted_issued hI h)).1

/-- A live number is neither retired nor removed. -/
theorem not_gone_of_live (hI : QueueInv s l) {a : ℕ} (ha : a ∈ (queue s l).live) :
    a ∉ (queue s l).retired ∧ a ∉ (queue s l).removed := by
  have hpushed : a ∈ (queue s l).pushed :=
    hI.wf.partition.mem_iff.2 (List.mem_append_right _ ha)
  have hone := hI.wf.count_eq_one List.nodup_range hpushed
  have hlive := List.count_pos_iff.2 ha
  constructor <;> intro hmem <;> have hpos := List.count_pos_iff.2 hmem <;> omega

/-- Nor does the edge that accepts its finish remove it. -/
theorem not_removed_of_accepted (hI : QueueInv s l) (hi : LegalInput cfg s i)
    (hpop : pops cfg s i ≤ kept cfg s i) {p : FinishPort} (h : portAccept cfg s i p = true) :
    l.owner (portResult i p).producer.index ∉
      (queue (step cfg s i) (l.update cfg s i)).removed := by
  obtain ⟨k, hk, htag⟩ := accepted_entry hI.ring h
  have hle : kept cfg s i ≤ s.count := kept_le
  have hold := (not_gone_of_live hI (accepted_live hI h)).2
  rw [queue_step hI.ring hi hpop]
  intro hmem
  rcases List.mem_append.1 hmem with hgone | hdrop
  · exact hold hgone
  · -- two places of the queue would hold one number
    obtain ⟨m, hm, hnum⟩ := List.mem_iff_getElem.1 hdrop
    simp only [queue, List.getElem_drop, List.getElem_map, List.getElem_range] at hnum
    have hmlt : m < s.count - kept cfg s i := by simpa [queue] using hm
    have hsame := hI.tagged.live (kept cfg s i + m) (by omega)
    rw [hnum, accepted_issued hI h, htag] at hsame
    have hidx := congrArg CompletionTag.index (Option.some.inj hsame)
    have hcount := hI.ring.count_le
    have hplace := (slotAt_inj hI.ring (by omega) (by omega)).1 hidx
    omega

end Owner

/-! ## Generations count allocations -/

/-- A slot's generation is the number of its allocations, modulo 256, every tag
carries the number of its own, and the slot's holder is the last of them. -/
structure Numbered (s : State) (l : Ledger) : Prop where
  stamped : Generation.Stamped 256 CompletionTag.index CompletionTag.generation l.issued
  generation : ∀ slot < cqDepth,
    s.generations slot = Generation.uses CompletionTag.index slot l.issued % 256
  latest : ∀ a t, l.issued[a]? = some t → a ≤ l.owner t.index

theorem numbered_start : Numbered resetState Ledger.start where
  stamped := Generation.stamped_nil
  generation := fun _ _ => rfl
  latest := by simp [Ledger.start]

section Numbering

variable {cfg : Config} {s : State} {i : Input} {l : Ledger}

/-- Two lanes allocate two slots. -/
theorem lanes_apart (hs : RingInv s) (hi : LegalInput cfg s i) (h0 : allocFire cfg s i = true)
    (h1 : alloc1Fire cfg s i = true) : (alloc1Tag s i).index ≠ (allocTag s).index := by
  have hlt := alloc1Count_lt hi h1
  have hlt0 := allocCount_lt h0
  rw [h0, Bool.toNat_true] at hlt
  rw [alloc1Index_eq hs hi h1, h0, Bool.toNat_true]
  show Ring.offset cqDepth s.head (s.count + 1) ≠ s.tail
  rw [hs.tail_eq, Ne, Ring.offset_inj hs.head_lt hlt hlt0]
  omega

theorem alloc1Index_lt (hs : RingInv s) : (alloc1Tag s i).index < cqDepth := by
  unfold alloc1Tag
  dsimp only
  split_ifs
  · exact hs.tail_lt
  · exact hs.tail1_lt

/-- A slot is used once more by the lane that allocates it. -/
theorem uses_allocated (hs : RingInv s) (hi : LegalInput cfg s i) (slot : ℕ) :
    Generation.uses CompletionTag.index slot (allocatedTags cfg s i) =
      if alloc1Fire cfg s i ∧ slot = (alloc1Tag s i).index then 1
      else if allocFire cfg s i ∧ slot = (allocTag s).index then 1 else 0 := by
  have hapart := @lanes_apart cfg s i hs hi
  rw [allocatedTags, Generation.uses_append]
  cases h0 : allocFire cfg s i <;> cases h1 : alloc1Fire cfg s i <;>
    simp only [h0, h1, if_true, Bool.false_eq_true, if_false, false_and, true_and,
      Generation.uses_singleton, forall_const, IsEmpty.forall_iff, @eq_comm _ slot] at hapart ⊢
  · rfl
  · exact Nat.zero_add _
  · rfl
  · by_cases hidx : (alloc1Tag s i).index = slot
    · rw [if_pos hidx, if_pos hidx, if_neg fun h => hapart (hidx.trans h.symm)]
    · rw [if_neg hidx, if_neg hidx, Nat.add_zero]

/-- **Every edge counts its allocations.** -/
theorem numbered_step (hs : RingInv s) (hi : LegalInput cfg s i) (h : Numbered s l) :
    Numbered (step cfg s i) (l.update cfg s i) where
  stamped := by
    have hapart := @lanes_apart cfg s i hs hi
    have hgen0 := h.generation (allocTag s).index hs.tail_lt
    have hgen1 := h.generation (alloc1Tag s i).index (alloc1Index_lt hs)
    have htag0 : (allocTag s).generation = (s.generations (allocTag s).index + 1) % 256 := rfl
    have htag1 : (alloc1Tag s i).generation =
      (s.generations (alloc1Tag s i).index + 1) % 256 := rfl
    show Generation.Stamped _ _ _ (l.issued ++ allocatedTags cfg s i)
    rw [allocatedTags, ← List.append_assoc]
    have hlane0 : Generation.Stamped 256 CompletionTag.index CompletionTag.generation
        (l.issued ++ if allocFire cfg s i then [allocTag s] else []) := by
      by_cases h0 : allocFire cfg s i = true
      · rw [if_pos h0]
        exact h.stamped.snoc (by rw [htag0, hgen0, Nat.mod_add_mod])
      · rw [if_neg h0, List.append_nil]
        exact h.stamped
    by_cases h1 : alloc1Fire cfg s i = true
    · rw [if_pos h1]
      refine hlane0.snoc ?_
      rw [htag1, hgen1, Nat.mod_add_mod, Generation.uses_append]
      split_ifs with h0
      · rw [Generation.uses_singleton, if_neg (hapart h0 h1).symm, Nat.add_zero]
      · rfl
    · rw [if_neg h1, List.append_nil]
      exact hlane0
  generation := by
    intro slot hslot
    show _ = Generation.uses CompletionTag.index slot (l.issued ++ allocatedTags cfg s i) % 256
    have htail : (allocTag s).index = s.tail := rfl
    rw [step_generations hi.running, Generation.uses_append, uses_allocated hs hi, nextGenerations,
      htail]
    split_ifs with h1 h0
    · rw [h1.2, ← Nat.mod_add_mod, ← h.generation _ (alloc1Index_lt hs)]
      rfl
    · rw [h0.2, ← Nat.mod_add_mod, ← h.generation _ hs.tail_lt]
      rfl
    · rw [Nat.add_zero]
      exact h.generation slot hslot
  latest := by
    intro a t ht
    have hlen : (allocatedTags cfg s i).length = pushes cfg s i := allocatedTags_length
    show a ≤ nextOwner cfg s i l t.index
    change (l.issued ++ allocatedTags cfg s i)[a]? = some t at ht
    rcases Nat.lt_or_ge a l.issued.length with hlt | hge
    · rw [List.getElem?_append_left hlt] at ht
      have hold := h.latest a t ht
      unfold nextOwner
      split_ifs <;> omega
    · rw [List.getElem?_append_right hge, allocatedTags_eq hs hi, List.getElem?_map] at ht
      obtain ⟨j, hj, rfl⟩ := Option.map_eq_some_iff.1 ht
      obtain ⟨hjlt, rfl⟩ := List.getElem?_eq_some_iff.1 hj
      rw [List.length_range] at hjlt
      rw [List.getElem_range, nextOwner_fresh hs hi hjlt]
      omega

end Numbering

/-! ## Results that come back in time -/

/-- A result made for the allocation `a`: it carries the tag that allocation was
answered, and the slot has been allocated at most 255 times since. -/
structure PresentedFor (l : Ledger) (tag : CompletionTag) (a : ℕ) : Prop where
  issued : l.issued[a]? = some tag
  recent : Generation.uses CompletionTag.index tag.index (l.issued.drop (a + 1)) ≤ 255

/-- **An accepted result was made for the slot's present holder.** -/
theorem owner_of_accepted {cfg : Config} {s : State} {i : Input} {l : Ledger}
    (hI : QueueInv s l) (hn : Numbered s l) {p : FinishPort}
    (h : portAccept cfg s i p = true) {a : ℕ}
    (ha : PresentedFor l (portResult i p).producer a) :
    l.owner (portResult i p).producer.index = a := by
  have hlast := hn.latest a _ ha.issued
  have hrecent : Generation.uses CompletionTag.index (portResult i p).producer.index
      (l.issued.drop (a + 1)) < 256 := Nat.lt_succ_of_le ha.recent
  exact (hn.stamped.eq_of_recent ha.issued (accepted_issued hI h) rfl rfl hlast hrecent).symm

/-! ## Runs -/

section Runs

variable {cfg : Config}

/-- The rules of one cycle: the two units' promises and the finish ports'
restrictions. -/
structure FinishRules (cfg : Config) (s : State) (i : Input) : Prop where
  input : LegalInput cfg s i
  recovery : LegalRecovery cfg s i
  ports : PortRules cfg s i

theorem queueInv_rules {r : Run (machine cfg)} {n : ℕ} (h : r.Obeys (FinishRules cfg) n) :
    QueueInv (r.state n) (ledger r n) :=
  queueInv_legal (h.imp fun _ _ hi => ⟨hi.input, hi.recovery⟩)

theorem numbered_run {r : Run (machine cfg)} {n : ℕ} (h : r.Obeys (FinishRules cfg) n) :
    Numbered (r.state n) (ledger r n) := by
  have hboth : QueueInv (r.state n) (ledger r n) ∧ Numbered (r.state n) (ledger r n) :=
    Run.invariant_history (I := fun s l => QueueInv s l ∧ Numbered s l)
      (fun s hinit => by rw [initial_eq hinit]; exact ⟨queueInv_start, numbered_start⟩)
      (fun _ _ _ hI hi => ⟨hI.1.edge hi.input
        (pops_le_kept_of_legal hI.1.ring hi.input hi.recovery),
        numbered_step hI.1.ring hi.input hI.2⟩) h
  exact hboth.2

/-- The port accepts a result on the edge, for the allocation `a`. -/
def Finishes (r : Run (machine cfg)) (k : ℕ) (p : FinishPort) (a : ℕ) : Prop :=
  portAccept cfg (r.state k) (r.input k) p = true ∧
    (ledger r k).owner (portResult (r.input k) p).producer.index = a

/-- A finish of the allocation `a` was accepted on one of the first `n` edges. -/
def FinishedBefore (r : Run (machine cfg)) (n a : ℕ) : Prop := ∃ k < n, ∃ p, Finishes r k p a

theorem finishedBefore_succ {r : Run (machine cfg)} {n a : ℕ} :
    FinishedBefore r (n + 1) a ↔ FinishedBefore r n a ∨ ∃ p, Finishes r n p a := by
  constructor
  · rintro ⟨k, hk, hp⟩
    rcases Nat.lt_succ_iff_lt_or_eq.1 hk with hlt | rfl
    · exact Or.inl ⟨k, hlt, hp⟩
    · exact Or.inr hp
  · rintro (⟨k, hk, hp⟩ | hp)
    · exact ⟨k, hk.trans (Nat.lt_succ_self n), hp⟩
    · exact ⟨n, Nat.lt_succ_self n, hp⟩

/-- Two accepted results for one holder have one producer. -/
theorem producer_of_finishes {r : Run (machine cfg)} {n a : ℕ} {p q : FinishPort}
    (hI : QueueInv (r.state n) (ledger r n)) (hp : Finishes r n p a) (hq : Finishes r n q a) :
    (portResult (r.input n) p).producer = (portResult (r.input n) q).producer := by
  have htp := accepted_issued hI hp.1
  have htq := accepted_issued hI hq.1
  rw [hp.2] at htp
  rw [hq.2, htp] at htq
  exact Option.some.inj htq

/-- What has been finished was allocated, and an entry that is not done has not been
finished. -/
structure Undone (r : Run (machine cfg)) (n : ℕ) : Prop where
  known : ∀ a, FinishedBefore r n a → a < (ledger r n).issued.length
  fresh : ∀ k < (r.state n).count, (entryAt (r.state n) k).done = false →
    ¬ FinishedBefore r n ((ledger r n).owner (slotAt (r.state n) k))

/-- A port that accepts an entry's tag finishes the entry. -/
theorem finishes_of_accepted {s : State} {i : Input} {p : FinishPort} {e : Entry}
    (h : portAccept cfg s i p = true) (htag : (portResult i p).producer = e.tag) :
    finishes cfg s i e = true := by
  cases p <;> simp_all [finishes, portAccept, portResult]

theorem undone_succ {r : Run (machine cfg)} {n : ℕ} (h : r.Obeys (FinishRules cfg) (n + 1))
    (hu : Undone r n) : Undone r (n + 1) := by
  have hI := queueInv_rules (h.mono (Nat.le_succ n))
  obtain ⟨hi, hrec, -⟩ := h n (Nat.lt_succ_self n)
  have hpop := pops_le_kept_of_legal hI.ring hi hrec
  have hgrow : (ledger r (n + 1)).issued =
      (ledger r n).issued ++ allocatedTags cfg (r.state n) (r.input n) := rfl
  have hknown : ∀ a, FinishedBefore r (n + 1) a → a < (ledger r n).issued.length := by
    intro a ha
    rcases finishedBefore_succ.1 ha with hold | ⟨p, hp, rfl⟩
    · exact hu.known a hold
    · exact accepted_lt hI hp
  constructor
  · intro a ha
    have hlt := hknown a ha
    rw [hgrow, List.length_append]
    omega
  intro k hk hdone hfin
  have hle : kept cfg (r.state n) (r.input n) ≤ (r.state n).count := kept_le
  have hfull := kept_add_pushes_le hI.ring hi
  have hcount : (r.state (n + 1)).count = kept cfg (r.state n) (r.input n) +
      pushes cfg (r.state n) (r.input n) - pops cfg (r.state n) (r.input n) := by
    show (step cfg (r.state n) (r.input n)).count = _
    rw [step_count hi.running, nextCount_eq hpop hI.ring hi]
  have hslot : slotAt (r.state (n + 1)) k =
      slotAt (r.state n) (pops cfg (r.state n) (r.input n) + k) :=
    slotAt_step hI.ring hi (by omega)
  have hown : (ledger r (n + 1)).owner (slotAt (r.state (n + 1)) k) =
      nextOwner cfg (r.state n) (r.input n) (ledger r n)
        (slotAt (r.state n) (pops cfg (r.state n) (r.input n) + k)) := by
    rw [hslot]
    rfl
  rw [hown] at hfin
  by_cases hold : pops cfg (r.state n) (r.input n) + k < kept cfg (r.state n) (r.input n)
  · -- a survivor was not done before and is not finished by this edge
    obtain ⟨-, hentry⟩ := entryAt_step hI.ring hi hpop (Nat.le_add_right _ k) hold
    rw [Nat.add_sub_cancel_left] at hentry
    have hbit := congrArg Entry.done hentry
    change (entryAt (r.state (n + 1)) k).done = _ at hbit
    rw [hdone, settle, Eq.comm, Bool.or_eq_false_iff] at hbit
    rw [slotAt, nextOwner_kept hI.ring hi hold] at hfin
    rcases finishedBefore_succ.1 hfin with hpast | ⟨p, hacc, hnum⟩
    · exact hu.fresh _ (by omega) hbit.1 hpast
    · have htag := accepted_issued hI hacc
      rw [hnum] at htag
      have hsame := Option.some.inj (htag.symm.trans (hI.tagged.live _ (by omega)))
      rw [finishes_of_accepted hacc hsame] at hbit
      exact absurd hbit.2 (by simp)
  · -- a fresh entry has a number that nothing has had before
    have hkept : kept cfg (r.state n) (r.input n) = (r.state n).count :=
      kept_of_pushes (by omega)
    obtain ⟨j, hj⟩ : ∃ j, pops cfg (r.state n) (r.input n) + k = (r.state n).count + j :=
      ⟨_, (Nat.add_sub_of_le (by omega)).symm⟩
    rw [hj, slotAt, nextOwner_fresh hI.ring hi (by omega)] at hfin
    have hlt := hknown _ hfin
    omega

/-- **An entry that is not done has not been finished**, in every state a run
reaches. -/
theorem undone_run {r : Run (machine cfg)} {n : ℕ} (h : r.Obeys (FinishRules cfg) n) :
    Undone r n := by
  induction n with
  | zero =>
    have hzero : ∀ a, ¬ FinishedBefore r 0 a := fun a ⟨k, hk, _⟩ => absurd hk (Nat.not_lt_zero k)
    exact ⟨fun a ha => absurd ha (hzero a), fun _ _ _ => hzero _⟩
  | succ n ih => exact undone_succ h (ih (h.mono (Nat.le_succ n)))

/-- An accepted finish is its holder's first. -/
theorem not_finishedBefore {r : Run (machine cfg)} {n a : ℕ} {p : FinishPort}
    (h : r.Obeys (FinishRules cfg) n) (hf : Finishes r n p a) : ¬ FinishedBefore r n a := by
  have hI := queueInv_rules h
  obtain ⟨k, hk, htag⟩ := accepted_entry hI.ring hf.1
  have hle : kept cfg (r.state n) (r.input n) ≤ (r.state n).count := kept_le
  have hacc := hf.1
  rw [portAccept_owner] at hacc
  have hdone := (finishOwner_spec hacc).2.2.2.1
  have hown := hf.2
  rw [htag] at hdone hown
  rw [← hown]
  exact (undone_run h).fresh k (by omega) hdone

/-- **An entry accepts at most one finish**, whichever port and whenever. -/
theorem finishes_once {r : Run (machine cfg)} {n k k' a : ℕ} {p p' : FinishPort}
    (h : r.Obeys (FinishRules cfg) n) (hk : k < n) (hk' : k' < n) (hf : Finishes r k p a)
    (hf' : Finishes r k' p' a) : k = k' ∧ p = p' := by
  rcases Nat.lt_trichotomy k k' with hlt | rfl | hgt
  · exact absurd ⟨k, hlt, p, hf⟩ (not_finishedBefore (h.mono hk'.le) hf')
  · have hprod := producer_of_finishes (queueInv_rules (h.mono hk.le)) hf hf'
    exact ⟨rfl, port_eq_of_producer (h k hk).ports hf.1 hf'.1 hprod⟩
  · exact absurd ⟨k', hgt, p', hf'⟩ (not_finishedBefore (h.mono hk.le) hf)

end Runs

/-! ## The result -/

/-- No finish port accepts a result for the slot, and neither wake names it. -/
structure Suppressed (cfg : Config) (s : State) (i : Input) (slot : ℕ) : Prop where
  finish : ∀ p, portAccept cfg s i p = true → (portResult i p).producer.index ≠ slot
  wake : ∀ w, WakeAgrees i w → wakeValid cfg s i w = true → i.result.producer.index ≠ slot
  wake1 : wake1Valid cfg s i = true → i.result1.producer.index ≠ slot

/-- **A recovery suppresses the finishes and wakes of what it removes.** -/
theorem suppressed_of_killed {cfg : Config} {s : State} {i : Input} {slot : ℕ}
    (h : redirectKill cfg s i slot = true) : Suppressed cfg s i slot := by
  have hfinish : ∀ p, portAccept cfg s i p = true →
      (portResult i p).producer.index ≠ slot := by
    rintro p hacc rfl
    rw [portAccept_owner] at hacc
    rw [(finishOwner_spec hacc).2.2.2.2.2] at h
    cases h
  refine ⟨hfinish, ?_, ?_⟩
  · intro w hw hvalid
    rw [wakeValid_eq hw] at hvalid
    simp only [Bool.and_eq_true] at hvalid
    exact hfinish .first hvalid.1.1.1
  · intro hvalid
    simp only [wake1Valid, Bool.and_eq_true] at hvalid
    exact hfinish .second hvalid.1

/-- What the tags guarantee over the first `n` edges of a run, when `origin` names
the allocation each presented result was made for. -/
structure ExactOwner {cfg : Config} (r : Run (machine cfg)) (origin : ℕ → FinishPort → ℕ)
    (n : ℕ) : Prop where
  /-- An accepted result was made for the allocation that holds the slot, whose answered
  tag it carries. -/
  owner : ∀ k < n, ∀ p, portAccept cfg (r.state k) (r.input k) p = true →
    origin k p ∈ (queueAt r k).live ∧
      (ledger r k).owner (portResult (r.input k) p).producer.index = origin k p ∧
      (ledger r k).issued[origin k p]? = some (portResult (r.input k) p).producer
  /-- No allocation has a second result accepted. -/
  once : ∀ k < n, ∀ k' < n, ∀ p p', portAccept cfg (r.state k) (r.input k) p = true →
    portAccept cfg (r.state k') (r.input k') p' = true → origin k p = origin k' p' →
      k = k' ∧ p = p'
  /-- None that has retired, or that a recovery has removed by the end of the edge, has
  one accepted. -/
  gone : ∀ k < n, ∀ p, portAccept cfg (r.state k) (r.input k) p = true →
    origin k p ∉ (queueAt r k).retired ∧ origin k p ∉ (queueAt r (k + 1)).removed
  /-- A recovery suppresses the finishes and wakes of the slots it removes. -/
  suppressed : ∀ k < n, ∀ slot, redirectKill cfg (r.state k) (r.input k) slot = true →
    Suppressed cfg (r.state k) (r.input k) slot

/-- **Exact-owner finish.** -/
theorem exact_owner_finish (cfg : Config) (r : Run (machine cfg)) (n : ℕ)
    (h : r.Obeys (FinishRules cfg) n) (origin : ℕ → FinishPort → ℕ)
    (horigin : ∀ k < n, ∀ p, portValid (r.input k) p = true →
      PresentedFor (ledger r k) (portResult (r.input k) p).producer (origin k p)) :
    ExactOwner r origin n := by
  have hinv : ∀ k < n, QueueInv (r.state k) (ledger r k) :=
    fun k hk => queueInv_rules (h.mono hk.le)
  have hown : ∀ k < n, ∀ p, portAccept cfg (r.state k) (r.input k) p = true →
      (ledger r k).owner (portResult (r.input k) p).producer.index = origin k p := by
    intro k hk p hacc
    have hvalid := hacc
    rw [portAccept_owner] at hvalid
    exact owner_of_accepted (hinv k hk) (numbered_run (h.mono hk.le)) hacc
      (horigin k hk p (finishOwner_spec hvalid).1)
  refine ⟨?_, ?_, ?_, fun k _ slot hkill => suppressed_of_killed hkill⟩
  · intro k hk p hacc
    rw [← hown k hk p hacc]
    exact ⟨accepted_live (hinv k hk) hacc, rfl, accepted_issued (hinv k hk) hacc⟩
  · intro k hk k' hk' p p' hacc hacc' heq
    exact finishes_once h hk hk' ⟨hacc, hown k hk p hacc⟩
      ⟨hacc', (hown k' hk' p' hacc').trans heq.symm⟩
  · intro k hk p hacc
    have hlive := accepted_live (hinv k hk) hacc
    have hpop := pops_le_kept_of_legal (hinv k hk).ring (h k hk).input (h k hk).recovery
    rw [← hown k hk p hacc]
    exact ⟨(not_gone_of_live (hinv k hk) hlive).1,
      not_removed_of_accepted (hinv k hk) (h k hk).input hpop hacc⟩

/-- The first port answers the first allocation and the second port the second. -/
def pairOrigin (_ : ℕ) : FinishPort → ℕ
  | .first => 0
  | .second => 1
  | .third => 2

/-- In the run that finishes a pair at once both results reach their own entry. -/
theorem exact_owner_finish_pair : ExactOwner writebackRun pairOrigin 2 ∧
    portAccept fullConfig (writebackRun.state 1) (writebackRun.input 1) .first = true ∧
    portAccept fullConfig (writebackRun.state 1) (writebackRun.input 1) .second = true := by
  have hlegal : writebackRun.Obeys (FinishRules fullConfig) 2 := by
    intro k hk
    interval_cases k <;>
      exact ⟨⟨rfl, by decide, by decide, nofun⟩, ⟨nofun, nofun, nofun⟩,
        ⟨by decide, by decide, by decide, by decide, by decide⟩⟩
  have horigin : ∀ k < 2, ∀ p, portValid (writebackRun.input k) p = true →
      PresentedFor (ledger writebackRun k) (portResult (writebackRun.input k) p).producer
        (pairOrigin k p) := by
    intro k hk p hvalid
    interval_cases k
    · cases p <;> exact absurd hvalid (by decide)
    · cases p
      case first => exact ⟨by decide, by decide⟩
      case second => exact ⟨by decide, by decide⟩
      case third => exact absurd hvalid (by decide)
  exact ⟨exact_owner_finish fullConfig writebackRun 2 hlegal pairOrigin horigin, by decide,
    by decide⟩

end Completion
end SloPPC603
