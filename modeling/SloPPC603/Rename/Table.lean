import SloPPC603.Rename.Writes

/-!
# The slots and the map as a table of writes

`Holds ws st` says that the rename registers are the table of the writes `ws`: each
write holds a slot of its own, the slots in use are theirs, and the map names the
youngest write of each register.  The parts of a clock edge are operations on the
list.

* `holds_freed` — releasing the oldest writes.
* `holds_allocate`, `holds_fired` — allocating slots behind them.
* `rebuild_spec` — the walk of a recovery.
* `freeSlots_length` — the slots that are left.
-/

namespace SloPPC603
namespace Rename

open Clocked (lastAt)

/-- The registers are the table of the writes, oldest first. -/
structure Holds (ws : List Write) (st : State) : Prop where
  nodup : (ws.map Write.slot).Nodup
  bound : ∀ w ∈ ws, w.slot.toNat < renameDepth
  valid : ∀ t, st.valid t = true ↔ t ∈ ws.map Write.slot
  owner : ∀ w ∈ ws, st.owners w.slot = w.producer
  mapped : ∀ r, st.mapValid r = (lastAt Write.reg r ws).isSome
  tag : ∀ r w, lastAt Write.reg r ws = some w → st.mapTag r = w.slot

variable {ws gone stay : List Write} {s st : State} {i : Port}

namespace Holds

/-- A write in flight owns its slot. -/
theorem owns (h : Holds ws st) {w : Write} (hw : w ∈ ws) : owns st w.slot w.producer = true := by
  have hv : st.valid w.slot = true := (h.valid w.slot).2 (List.mem_map_of_mem hw)
  simp [Rename.owns, h.bound w hw, hv, h.owner w hw]

/-- Two writes in one slot are one. -/
theorem eq_of_slot (h : Holds ws st) {v w : Write} (hv : v ∈ ws) (hw : w ∈ ws)
    (heq : v.slot = w.slot) : v = w := List.inj_on_of_nodup_map h.nodup hv hw heq

/-- The table reads only the slots, their owners and the map. -/
theorem congr (h : Holds ws s) (hv : st.valid = s.valid) (ho : st.owners = s.owners)
    (hm : st.mapValid = s.mapValid) (ht : st.mapTag = s.mapTag) : Holds ws st where
  nodup := h.nodup
  bound := h.bound
  valid := by rw [hv]; exact h.valid
  owner := by rw [ho]; exact h.owner
  mapped := by rw [hm]; exact h.mapped
  tag := by rw [ht]; exact h.tag

end Holds

theorem holds_nil (hv : st.valid = fun _ => false) (hm : st.mapValid = fun _ => false) :
    Holds [] st where
  nodup := List.nodup_nil
  bound := fun _ hw => absurd hw List.not_mem_nil
  valid := fun t => by simp [hv]
  owner := fun _ hw => absurd hw List.not_mem_nil
  mapped := fun r => by simp [hm]
  tag := fun r w hw => by simp at hw

/-! ## Wakes -/

theorem applyWake_eq (w : Wake) : (applyWake s st w).valid = st.valid ∧
    (applyWake s st w).owners = st.owners ∧ (applyWake s st w).mapValid = st.mapValid ∧
    (applyWake s st w).mapTag = st.mapTag := by
  unfold applyWake
  split_ifs <;> exact ⟨rfl, rfl, rfl, rfl⟩

/-- A wake moves no slot and no map entry. -/
theorem holds_woken (h : Holds ws s) : Holds ws (woken s i) := by
  obtain ⟨hv0, ho0, hm0, ht0⟩ := @applyWake_eq s s i.wake
  obtain ⟨hv1, ho1, hm1, ht1⟩ := @applyWake_eq s (applyWake s s i.wake) i.wake1
  exact h.congr (hv1.trans hv0) (ho1.trans ho0) (hm1.trans hm0) (ht1.trans ht0)

/-! ## Releases -/

/-- **Releasing the oldest writes.**  A map entry goes with the write it names, and
a younger write of the register keeps its own. -/
theorem holds_freed (h : Holds (gone ++ stay) s) (hst : Holds (gone ++ stay) st)
    (hrel : ∀ r t, (∃ p ∈ released s i, p.reg = r ∧ p.tag = t) ↔
      ∃ w ∈ gone, w.reg = r ∧ w.slot = t) :
    Holds stay (freed s i st) := by
  have hnd : (gone ++ stay).Nodup := List.Nodup.of_map _ h.nodup
  have hany : ∀ t, (released s i).any (fun p => p.tag = t) = true ↔ t ∈ gone.map Write.slot := by
    intro t
    simp only [List.any_eq_true, decide_eq_true_eq, List.mem_map]
    constructor
    · rintro ⟨p, hp, rfl⟩
      obtain ⟨w, hw, -, hslot⟩ := (hrel p.reg p.tag).1 ⟨p, hp, rfl, rfl⟩
      exact ⟨w, hw, hslot⟩
    · rintro ⟨w, hw, rfl⟩
      obtain ⟨p, hp, -, htag⟩ := (hrel w.reg w.slot).2 ⟨w, hw, rfl, rfl⟩
      exact ⟨p, hp, htag⟩
  have hdisj : ∀ w ∈ stay, w.slot ∉ gone.map Write.slot := by
    intro w hw hin
    have hslots := h.nodup
    rw [List.map_append] at hslots
    exact List.disjoint_of_nodup_append hslots hin (List.mem_map_of_mem hw)
  -- a register keeps its map entry when its youngest write stays
  have hmap : ∀ r w, lastAt Write.reg r (gone ++ stay) = some w →
      ((released s i).any (fun p => p.reg = r && p.tag = s.mapTag r) = true ↔ w ∈ gone) := by
    intro r w hw
    have htag := h.tag r w hw
    simp only [List.any_eq_true, Bool.and_eq_true, decide_eq_true_eq, htag]
    rw [hrel]
    constructor
    · rintro ⟨v, hv, -, hslot⟩
      have hmem := Clocked.mem_of_lastAt hw
      have heq := h.eq_of_slot (List.mem_append_left _ hv) hmem hslot
      rw [← heq]
      exact hv
    · intro hin
      exact ⟨w, hin, Clocked.idx_of_lastAt hw, rfl⟩
  constructor
  · have hslots := h.nodup
    rw [List.map_append] at hslots
    exact (List.nodup_append.1 hslots).2.1
  · exact fun w hw => h.bound w (List.mem_append_right _ hw)
  · intro t
    show (st.valid t && !(released s i).any (fun p => p.tag = t)) = true ↔ _
    rw [Bool.and_eq_true, Bool.not_eq_true', ← Bool.not_eq_true, hany, hst.valid,
      List.map_append, List.mem_append]
    constructor
    · rintro ⟨hin | hin, hno⟩
      · exact absurd hin hno
      · exact hin
    · intro hin
      obtain ⟨w, hw, rfl⟩ := List.mem_map.1 hin
      exact ⟨Or.inr hin, hdisj w hw⟩
  · exact fun w hw => hst.owner w (List.mem_append_right _ hw)
  · intro r
    show (st.mapValid r && !(released s i).any (fun p => p.reg = r && p.tag = s.mapTag r)) = _
    rw [hst.mapped]
    cases hlast : lastAt Write.reg r (gone ++ stay) with
    | none => rw [Clocked.lastAt_right_of_none hlast]; rfl
    | some w =>
      rw [Option.isSome_some, Bool.true_and]
      rcases List.mem_append.1 (Clocked.mem_of_lastAt hlast) with hin | hin
      · rw [(hmap r w hlast).2 hin, Clocked.lastAt_right_eq_none hnd hlast hin]
        rfl
      · have hno : ¬ (released s i).any (fun p => p.reg = r && p.tag = s.mapTag r) = true := by
          rw [hmap r w hlast]
          exact fun hgone => List.disjoint_of_nodup_append hnd hgone hin
        rw [Bool.not_eq_true] at hno
        rw [hno, Clocked.lastAt_right hnd hlast hin]
        rfl
  · intro r w hw
    show st.mapTag r = w.slot
    apply hst.tag
    rw [Clocked.lastAt_append, hw, Option.some_or]

/-! ## Allocations -/

/-- **Allocating a free slot.** -/
theorem holds_allocate (h : Holds ws st) {a : BitVec 3 × AllocPort}
    (hfree : st.valid a.1 = false) (hlt : a.1.toNat < renameDepth) :
    Holds (ws ++ [portWrite a]) (st.allocate a) := by
  have hnew : a.1 ∉ ws.map Write.slot := by
    rw [← h.valid, hfree]
    simp
  constructor
  · rw [List.map_append, List.nodup_append]
    refine ⟨h.nodup, List.nodup_singleton _, ?_⟩
    intro x hx y hy heq
    rw [List.map_singleton, List.mem_singleton] at hy
    rw [heq, hy] at hx
    exact hnew hx
  · intro w hw
    rcases List.mem_append.1 hw with hold | hlast
    · exact h.bound w hold
    · rw [List.mem_singleton.1 hlast]
      exact hlt
  · intro t
    show Function.update st.valid a.1 true t = true ↔ _
    rw [List.map_append, List.mem_append, ← h.valid]
    by_cases ht : t = a.1
    · subst ht
      simp [portWrite]
    · rw [Function.update_of_ne ht]
      simp [portWrite, ht]
  · intro w hw
    show Function.update st.owners a.1 a.2.producer w.slot = w.producer
    rcases List.mem_append.1 hw with hold | hlast
    · have hne : w.slot ≠ a.1 := by
        intro heq
        rw [← heq] at hnew
        exact hnew (List.mem_map_of_mem hold)
      rw [Function.update_of_ne hne, h.owner w hold]
    · rw [List.mem_singleton.1 hlast]
      exact Function.update_self a.1 a.2.producer st.owners
  · intro r
    show Function.update st.mapValid a.2.reg true r = _
    rw [Clocked.lastAt_append, Clocked.lastAt_singleton]
    by_cases hr : r = a.2.reg
    · subst hr
      simp [portWrite]
    · have hne : ¬ (portWrite a).reg = r := fun heq => hr heq.symm
      rw [Function.update_of_ne hr, if_neg hne, Option.none_or, h.mapped]
  · intro r w hw
    show Function.update st.mapTag a.2.reg a.1 r = w.slot
    rw [Clocked.lastAt_append, Clocked.lastAt_singleton] at hw
    by_cases hr : r = a.2.reg
    · subst hr
      rw [if_pos (show (portWrite a).reg = a.2.reg from rfl), Option.some_or, Option.some_inj]
        at hw
      rw [← hw, Function.update_self]
      rfl
    · have hne : ¬ (portWrite a).reg = r := fun heq => hr heq.symm
      rw [if_neg hne, Option.none_or] at hw
      rw [Function.update_of_ne hr, h.tag r w hw]

/-- Allocating distinct free slots, in order. -/
theorem holds_foldl_allocate (l : List (BitVec 3 × AllocPort)) (h : Holds ws st)
    (hnd : (l.map Prod.fst).Nodup)
    (hfree : ∀ a ∈ l, st.valid a.1 = false ∧ a.1.toNat < renameDepth) :
    Holds (ws ++ l.map portWrite) (l.foldl State.allocate st) := by
  induction l generalizing ws st with
  | nil => simpa using h
  | cons a l ih =>
    rw [List.map_cons, List.nodup_cons] at hnd
    obtain ⟨hv, hlt⟩ := hfree a List.mem_cons_self
    have htail : ∀ b ∈ l, (st.allocate a).valid b.1 = false ∧ b.1.toNat < renameDepth := by
      intro b hb
      have hne : b.1 ≠ a.1 := by
        intro heq
        rw [← heq] at hnd
        exact hnd.1 (List.mem_map_of_mem hb)
      obtain ⟨hvb, hltb⟩ := hfree b (List.mem_cons_of_mem a hb)
      refine ⟨?_, hltb⟩
      show Function.update st.valid a.1 true b.1 = false
      rw [Function.update_of_ne hne, hvb]
    have hrest := ih (holds_allocate h hv hlt) hnd.2 htail
    rw [List.append_assoc, List.singleton_append] at hrest
    exact hrest

/-! ## Free slots -/

theorem nodup_slots : slots.Nodup := by decide

theorem mem_slots {t : BitVec 3} : t ∈ slots ↔ t.toNat < renameDepth := by
  revert t
  decide

theorem nodup_freeSlots : (freeSlots s).Nodup := nodup_slots.filter _

theorem mem_freeSlots {t : BitVec 3} :
    t ∈ freeSlots s ↔ t.toNat < renameDepth ∧ s.valid t = false := by
  simp [freeSlots, mem_slots]

/-- **The slots left are the slots no write holds.** -/
theorem freeSlots_length (h : Holds ws s) : (freeSlots s).length + ws.length = renameDepth := by
  have hused : (slots.filter fun t => s.valid t).length = ws.length := by
    have hperm : (slots.filter fun t => s.valid t).Perm (ws.map Write.slot) := by
      rw [List.perm_ext_iff_of_nodup (nodup_slots.filter _) h.nodup]
      intro t
      rw [List.mem_filter, h.valid, mem_slots]
      constructor
      · exact fun hin => hin.2
      · intro hin
        obtain ⟨w, hw, rfl⟩ := List.mem_map.1 hin
        exact ⟨h.bound w hw, hin⟩
    rw [hperm.length_eq, List.length_map]
  have hsplit := List.length_eq_length_filter_add (l := slots) (fun t => s.valid t)
  have hlen : slots.length = renameDepth := by decide
  rw [freeSlots]
  omega

/-- A port that is ready allocates a free slot of its own. -/
theorem allocTag_of_ready {k : ℕ} (h : allocReady s i k = true) :
    k < (freeSlots s).length ∧ allocTag s k ∈ freeSlots s := by
  simp only [allocReady, Bool.and_eq_true, decide_eq_true_eq] at h
  have hk := h.1.1
  refine ⟨hk, ?_⟩
  rw [allocTag, List.getElem?_eq_getElem hk]
  exact List.getElem_mem hk

theorem allocTag_inj {j k : ℕ} (hj : j < (freeSlots s).length) (hk : k < (freeSlots s).length)
    (heq : allocTag s j = allocTag s k) : j = k := by
  rw [allocTag, allocTag, List.getElem?_eq_getElem hj, List.getElem?_eq_getElem hk] at heq
  exact (List.Nodup.getElem_inj_iff nodup_freeSlots).1 heq

/-! ## The walk of a recovery -/

/-- What the walk puts into the table for one owned slot. -/
structure Put where
  write : Write
  ready : Bool
  age : ℕ

/-- The puts of one entry. -/
def entryPuts (s : State) (i : Port) (age : ℕ) : List Put :=
  let e := i.recoveryRename age
  (if mainOwned s e then
    [⟨⟨e.gpr, e.tag, e.producer, false⟩, readyNow s i e.tag e.producer, age⟩] else []) ++
  (if updateOwned s e then [⟨⟨e.updateGpr, e.updateTag, e.producer, true⟩, true, age⟩] else [])

/-- The puts of the walk, in order. -/
def puts (s : State) (i : Port) : List Put := (List.range cqDepth).flatMap (entryPuts s i)

/-- One put. -/
def Put.into (b : Rebuild) (p : Put) : Rebuild := b.put p.write.reg p.write.slot p.ready p.age

theorem rebuild_eq : rebuild s i = (puts s i).foldl Put.into {} := by
  rw [rebuild, puts, List.foldl_flatMap]
  congr 1
  funext b age
  rw [rebuildEntry, entryPuts]
  cases mainOwned s (i.recoveryRename age) <;> cases updateOwned s (i.recoveryRename age) <;> rfl

/-- What the walk leaves: at each slot and each register the last put. -/
theorem foldl_put (l : List Put) (b : Rebuild) :
    (l.foldl Put.into b).valid =
        l.foldl (fun f p => Function.update f p.write.slot true) b.valid ∧
      (l.foldl Put.into b).ready =
        l.foldl (fun f p => Function.update f p.write.slot p.ready) b.ready ∧
      (l.foldl Put.into b).slotAge =
        l.foldl (fun f p => Function.update f p.write.slot p.age) b.slotAge ∧
      (l.foldl Put.into b).mapValid =
        l.foldl (fun f p => Function.update f p.write.reg true) b.mapValid ∧
      (l.foldl Put.into b).mapTag =
        l.foldl (fun f p => Function.update f p.write.reg p.write.slot) b.mapTag ∧
      (l.foldl Put.into b).mapAge =
        l.foldl (fun f p => Function.update f p.write.reg p.age) b.mapAge := by
  induction l generalizing b with
  | nil => exact ⟨rfl, rfl, rfl, rfl, rfl, rfl⟩
  | cons p l ih => exact ih (p.into b)

/-- **The walk less the entries that retire** is the table of the puts that stay. -/
theorem recovered_spec {goneP stayP : List Put} (hputs : puts s i = goneP ++ stayP)
    (hgone : ∀ p ∈ goneP, i.recoveryRemove p.age = true)
    (hstay : ∀ p ∈ stayP, i.recoveryRemove p.age = false) :
    (∀ t, (recovered s i).valid t = (lastAt (fun p : Put => p.write.slot) t stayP).isSome) ∧
      (∀ t p, lastAt (fun p : Put => p.write.slot) t stayP = some p →
        (recovered s i).ready t = p.ready) ∧
      (∀ r, (recovered s i).mapValid r =
        (lastAt (fun p : Put => p.write.reg) r stayP).isSome) ∧
      (∀ r p, lastAt (fun p : Put => p.write.reg) r stayP = some p →
        (recovered s i).mapTag r = p.write.slot) := by
  obtain ⟨hv, hr, hsa, hmv, hmt, hma⟩ := foldl_put (goneP ++ stayP) {}
  rw [← hputs, ← rebuild_eq, hputs] at hv hr hsa hmv hmt hma
  have hvalid : ∀ t,
      (recovered s i).valid t = (lastAt (fun p : Put => p.write.slot) t stayP).isSome := by
    intro t
    show ((rebuild s i).valid t && !i.recoveryRemove ((rebuild s i).slotAge t)) = _
    rw [hv, hsa, Clocked.foldl_update (fun p : Put => p.write.slot) (fun _ => true),
      Clocked.foldl_update (fun p : Put => p.write.slot) Put.age, Clocked.lastAt_append]
    cases hs : lastAt (fun p : Put => p.write.slot) t stayP with
    | some p => simp [hstay p (Clocked.mem_of_lastAt hs)]
    | none =>
      cases hg : lastAt (fun p : Put => p.write.slot) t goneP with
      | some p => simp [hgone p (Clocked.mem_of_lastAt hg)]
      | none => simp
  have hmap : ∀ r,
      (recovered s i).mapValid r = (lastAt (fun p : Put => p.write.reg) r stayP).isSome := by
    intro r
    show ((rebuild s i).mapValid r && !i.recoveryRemove ((rebuild s i).mapAge r)) = _
    rw [hmv, hma, Clocked.foldl_update (fun p : Put => p.write.reg) (fun _ => true),
      Clocked.foldl_update (fun p : Put => p.write.reg) Put.age, Clocked.lastAt_append]
    cases hs : lastAt (fun p : Put => p.write.reg) r stayP with
    | some p => simp [hstay p (Clocked.mem_of_lastAt hs)]
    | none =>
      cases hg : lastAt (fun p : Put => p.write.reg) r goneP with
      | some p => simp [hgone p (Clocked.mem_of_lastAt hg)]
      | none => simp
  refine ⟨hvalid, ?_, hmap, ?_⟩
  · intro t p hp
    show ((recovered s i).valid t && (rebuild s i).ready t) = _
    rw [hvalid, hp, hr, Clocked.foldl_update (fun p : Put => p.write.slot) Put.ready,
      Clocked.lastAt_append, hp]
    simp
  · intro r p hp
    show (if (recovered s i).mapValid r then (rebuild s i).mapTag r else 0) = _
    rw [hmap, hp, hmt, Clocked.foldl_update (fun p : Put => p.write.reg)
      (fun p : Put => p.write.slot), Clocked.lastAt_append, hp]
    simp

/-- **A recovery leaves the table of the writes that stay.** -/
theorem holds_recovered (h : Holds ws s) (hsub : stay.Sublist ws) {goneP stayP : List Put}
    (hputs : puts s i = goneP ++ stayP) (hgone : ∀ p ∈ goneP, i.recoveryRemove p.age = true)
    (hkeep : ∀ p ∈ stayP, i.recoveryRemove p.age = false) (hmap : stayP.map Put.write = stay) :
    Holds stay (recovered s i) := by
  obtain ⟨hvalid, -, hmapped, htag⟩ := recovered_spec hputs hgone hkeep
  have hslot : ∀ t, lastAt Write.slot t stay =
      (lastAt (fun p : Put => p.write.slot) t stayP).map Put.write := by
    intro t
    rw [← hmap, Clocked.lastAt_map]
  have hreg : ∀ r, lastAt Write.reg r stay =
      (lastAt (fun p : Put => p.write.reg) r stayP).map Put.write := by
    intro r
    rw [← hmap, Clocked.lastAt_map]
  constructor
  · exact h.nodup.sublist (hsub.map _)
  · exact fun w hw => h.bound w (hsub.subset hw)
  · intro t
    have hsome : (recovered s i).valid t = (lastAt Write.slot t stay).isSome := by
      rw [hvalid, hslot, Option.isSome_map]
    rw [hsome, ← Bool.not_eq_false, Option.isSome_eq_false_iff, Option.isNone_iff_eq_none,
      Clocked.lastAt_eq_none_iff, List.mem_map]
    push Not
    rfl
  · exact fun w hw => h.owner w (hsub.subset hw)
  · intro r
    rw [hmapped, hreg, Option.isSome_map]
  · intro r w hw
    rw [hreg] at hw
    obtain ⟨p, hp, rfl⟩ := Option.map_eq_some_iff.1 hw
    exact htag r p hp

end Rename
end SloPPC603
