import SloPPC603.Clocked.Journal
import SloPPC603.Flags.Queue

/-!
# One owner, one waiter

The entries in flight that claim the CR rename, in program order, are exactly
what the flags unit records: the owner of the token and behind it the waiter.
From that follow who holds the token in every reachable state, when it is handed
on and when it is freed.

* `holders_of_running`, `holders_of_recovery` — the unit's registers after an
  edge, as a list.
* `tokenInv_step` — the claimants of the queue are the holders of the unit.
* `Handover`, `handover_step` — the token on one edge.
* `committed_eq` — CR and XER are the retired packets' writes in order.
-/

namespace SloPPC603
namespace Flags

open Completion (Entry entries)
open Clocked (Run)

/-! ## The unit's registers as a list -/

/-- The owner of the token and the waiter behind it. -/
def holders (f : State) : List CompletionTag :=
  (if f.busy then [f.owner] else []) ++ (if f.waiter then [f.waiterTag] else [])

/-- The tags that take the token or the waiting place on this edge. -/
def claiming (f : State) (p : Port) : List CompletionTag :=
  (if allocFire f p then [p.allocTag] else []) ++ (if p.waitAlloc then [p.waitTag] else [])

/-- The middle part of a list without repetitions is what the list has of it. -/
theorem middle_eq_filter {α : Type*} [DecidableEq α] {l a b c : List α} (h : l = a ++ b ++ c)
    (hnd : l.Nodup) : b = l.filter (fun x => x ∈ b) := by
  subst h
  rw [List.append_assoc] at hnd
  obtain ⟨-, hbc, hab⟩ := List.nodup_append.1 hnd
  obtain ⟨-, -, hcb⟩ := List.nodup_append.1 hbc
  have hfront : a.filter (fun x => decide (x ∈ b)) = [] := by
    rw [List.filter_eq_nil_iff]
    intro x hx hb
    exact hab x hx x (List.mem_append_left _ (of_decide_eq_true hb)) rfl
  have hback : c.filter (fun x => decide (x ∈ b)) = [] := by
    rw [List.filter_eq_nil_iff]
    intro x hx hb
    exact hcb x (of_decide_eq_true hb) x hx rfl
  have hmid : b.filter (fun x => decide (x ∈ b)) = b := by
    rw [List.filter_eq_self]
    intro x hx
    exact decide_eq_true hx
  rw [List.filter_append, List.filter_append, hfront, hback, hmid, List.nil_append,
    List.append_nil]

section Unit

variable {f : State} {p : Port} {gone stay removed : List CompletionTag}

theorem step_flags (hrst : p.rstN = true) : (Flags.step f p).busy = nextBusy f p ∧
    (Flags.step f p).owner = nextOwner f p ∧ (Flags.step f p).waiter = nextWaiter f p ∧
      (Flags.step f p).waiterTag = nextWaiterTag f p := by
  rw [Flags.step, if_pos hrst]
  exact ⟨rfl, rfl, rfl, rfl⟩

theorem holders_step (hrst : p.rstN = true) : holders (Flags.step f p) =
    (if nextBusy f p then [nextOwner f p] else []) ++
      (if nextWaiter f p then [nextWaiterTag f p] else []) := by
  obtain ⟨hb, ho, hw, ht⟩ := step_flags (f := f) hrst
  rw [holders, hb, ho, hw, ht]

/-- **An edge without a recovery**: the retiring owner leaves the list and the
claims of the edge join it. -/
theorem holders_of_running (hrst : p.rstN = true) (hrec : p.recovery = false)
    (hwait : f.waiter = true → f.busy = true) (hsplit : holders f = gone ++ stay)
    (hgone : gone.length ≤ 1) (hcommit : ownerCommit f p = true ↔ gone ≠ [])
    (hclaim : p.waitAlloc = true → f.waiter = false ∧ (f.busy = true ∨ allocFire f p = true)) :
    holders (Flags.step f p) = stay ++ claiming f p := by
  have hfire : allocFire f p = true → f.busy = false := by
    intro h
    simp only [allocFire, allocReady, hrst, hrec, Bool.and_eq_true, Bool.or_eq_true,
      Bool.not_eq_true'] at h
    rcases h.2.2 with hn | hb
    · rw [hn] at h
      exact absurd h.1.2 (by simp)
    · exact hb
  rw [holders_step hrst]
  unfold holders at hsplit
  unfold nextBusy nextOwner nextWaiter nextWaiterTag handoff claiming
  cases hbusy : f.busy with
  | false =>
    have hw : f.waiter = false := by
      cases hw : f.waiter with
      | false => rfl
      | true => rw [hwait hw] at hbusy; exact hbusy
    rw [hbusy, hw] at hsplit
    obtain ⟨rfl, rfl⟩ : gone = [] ∧ stay = [] := by simpa using hsplit
    have hoc : ownerCommit f p = false := by simpa using hcommit
    cases hf : allocFire f p <;> cases ha : p.waitAlloc <;> simp_all
  | true =>
    have hf : allocFire f p = false := by
      cases h : allocFire f p with
      | false => rfl
      | true => rw [hfire h] at hbusy; cases hbusy
    cases hw : f.waiter with
    | false =>
      rw [hbusy, hw] at hsplit
      cases gone with
      | nil =>
        have hoc : ownerCommit f p = false := by simpa using hcommit
        have hst : stay = [f.owner] := by simpa using hsplit.symm
        cases ha : p.waitAlloc <;> simp_all
      | cons x xs =>
        have hoc : ownerCommit f p = true := by simpa using hcommit
        have hst : f.owner = x ∧ xs = [] ∧ stay = [] := by simpa using hsplit
        cases ha : p.waitAlloc <;> simp_all
    | true =>
      have ha : p.waitAlloc = false := by
        cases h : p.waitAlloc with
        | false => rfl
        | true => rw [(hclaim h).1] at hw; cases hw
      rw [hbusy, hw] at hsplit
      cases gone with
      | nil =>
        have hoc : ownerCommit f p = false := by simpa using hcommit
        have hst : stay = [f.owner, f.waiterTag] := by simpa using hsplit.symm
        simp_all
      | cons x xs =>
        have hoc : ownerCommit f p = true := by simpa using hcommit
        have hxs : xs = [] := by simpa using hgone
        subst hxs
        have hst : stay = [f.waiterTag] := by simpa using (List.cons_eq_cons.1 hsplit).2.symm
        simp_all

/-- **An edge with a recovery**: the holders that stay in flight go on holding. -/
theorem holders_of_recovery (hrst : p.rstN = true) (hrec : p.recovery = true)
    (hwait : f.waiter = true → f.busy = true) (hsplit : holders f = gone ++ stay ++ removed)
    (hnodup : (holders f).Nodup)
    (howner : ownerSurvives f p = true ↔ f.busy = true ∧ f.owner ∈ stay)
    (hwaiter : waiterSurvives f p = true ↔ f.waiter = true ∧ f.waiterTag ∈ stay)
    (hnone : p.waitAlloc = false) : holders (Flags.step f p) = stay := by
  have hstay := middle_eq_filter hsplit hnodup
  rw [holders_step hrst, hstay]
  unfold nextBusy nextOwner nextWaiter nextWaiterTag handoff holders
  cases hbusy : f.busy with
  | false =>
    have hw : f.waiter = false := by
      cases hw : f.waiter with
      | false => rfl
      | true => rw [hwait hw] at hbusy; exact hbusy
    have hos : ownerSurvives f p = false := by simpa [hbusy] using howner
    have hws : waiterSurvives f p = false := by simpa [hw] using hwaiter
    simp [hrec, hw, hos, hws]
  | true =>
    have hos : ownerSurvives f p = decide (f.owner ∈ stay) := by
      rw [Bool.eq_iff_iff, howner, decide_eq_true_eq]
      exact and_iff_right hbusy
    cases hw : f.waiter with
    | false =>
      have hws : waiterSurvives f p = false := by simpa [hw] using hwaiter
      by_cases ho : f.owner ∈ stay <;> simp [hrec, hos, hws, ho]
    | true =>
      have hws : waiterSurvives f p = decide (f.waiterTag ∈ stay) := by
        rw [Bool.eq_iff_iff, hwaiter, decide_eq_true_eq]
        exact and_iff_right hw
      by_cases ho : f.owner ∈ stay <;> by_cases hwt : f.waiterTag ∈ stay <;>
        simp [hrec, hos, hws, ho, hwt, hnone]

/-- A waiter never outlives the owner. -/
theorem busy_of_waiter (hrst : p.rstN = true) (hwait : f.waiter = true → f.busy = true)
    (hclaim : p.waitAlloc = true → f.waiter = false ∧ (f.busy = true ∨ allocFire f p = true))
    (h : (Flags.step f p).waiter = true) : (Flags.step f p).busy = true := by
  obtain ⟨hb, -, hw, -⟩ := step_flags (f := f) hrst
  rw [hw] at h
  rw [hb]
  unfold nextWaiter at h
  unfold nextBusy
  cases hrec : p.recovery with
  | true =>
    rw [hrec] at h
    have hwq : f.waiter = true := by
      by_contra hne
      simp [hne] at h
    have hbq := hwait hwq
    cases hos : ownerSurvives f p with
    | true => simp [hbq]
    | false =>
      cases hws : waiterSurvives f p with
      | true => simp [handoff, hrec, hbq, hwq, hos, hws]
      | false => simp [hws] at h
  | false =>
    rw [hrec] at h
    cases hoc : ownerCommit f p with
    | true => simp [hoc] at h
    | false =>
      cases hf : allocFire f p with
      | true => simp
      | false =>
        cases ha : p.waitAlloc with
        | true => simpa [hf] using (hclaim ha).2
        | false => simpa [hoc, ha] using hwait (by simpa [hoc, ha] using h)

end Unit

/-! ## The claimants of the queue -/

/-- The entry claims the CR rename: it owns the token or waits for it.  An FP
entry writes its CR field in retirement order and claims nothing. -/
def claims (e : Entry) : Bool := ownsToken e.packet && !e.packet.fprWrite

/-- The tags of the claimants in flight, oldest first. -/
def claimants (s : System) : List CompletionTag := ((entries s.cq).filter claims).map Entry.tag

section Fresh

variable {cfg : Config} {s : System} {i : Input}

/-- A claim of lane 0 dispatches on ready flags and allocates. -/
theorem lane0_of_flagsTok0 (h : Legal cfg s i) (hd : dispatch cfg s i = true)
    (ht : flagsTok0 cfg i = true) :
    flagsReady cfg s i = true ∧ i.lane0.removed = false ∧ i.lane0.fp = false ∧
      (uop0 cfg i).illegal = false := by
  have hneeds : dispatchNeedsFlags cfg i = true := by
    simp only [flagsTok0, Bool.and_eq_true] at ht
    exact ht.1
  simp only [dispatchNeedsFlags, Bool.and_eq_true, Bool.not_eq_true'] at hneeds
  obtain ⟨⟨hill, hfp⟩, hflag⟩ := hneeds
  refine ⟨?_, ?_, hfp, hill⟩
  · simp only [dispatch, hill, hfp, Bool.false_and, Bool.false_or, Bool.and_eq_true,
      Bool.or_eq_true] at hd
    rcases hd.2 with hn | hsp
    · exact hn.2
    · exact hsp.2
  · by_contra hne
    have hb := h.lane0.removed (by simpa using hne)
    have hfree := Uop.flagged_eq_false_iff.2 (h.lane0.branch_flagFree hb)
    rw [uop0, hfree] at hflag
    cases hflag

/-- A claim of lane 1 allocates. -/
theorem lane1_of_flagsTok1 (h : Legal cfg s i) (ht : flagsTok1 cfg i = true) :
    i.lane1.removed = false ∧ i.lane1.fp = false ∧ i.lane1.branch = false := by
  have hneeds : d1NeedsFlags cfg i = true := by
    simp only [flagsTok1, Bool.and_eq_true] at ht
    exact ht.1
  simp only [d1NeedsFlags, Bool.and_eq_true, Bool.not_eq_true'] at hneeds
  refine ⟨?_, hneeds.1.1, hneeds.1.2⟩
  by_contra hne
  have hb := h.lane1.removed (by simpa using hne)
  rw [hneeds.1.2] at hb
  cases hb

/-- Needing the flags absorbs every write. -/
theorem flagged_or_writes (u : Uop) : (u.flagged || u.writeXer || u.writeCa || u.writeOvSo ||
    u.writeCrField || u.writeCrFields || u.writeCrBit) = u.flagged := by
  cases h : u.flagged with
  | true => simp
  | false =>
    obtain ⟨h1, h2, h3, h4, h5, h6⟩ := Uop.flagFree_writes (Uop.flagged_eq_false_iff.1 h)
    simp [h1, h2, h3, h4, h5, h6]

/-- The stored allocation of a lane claims what the lane's operation claims. -/
theorem claims_allocation {l : Lane} {u : Uop} {illegal needs done : Bool} {tag : CompletionTag}
    (h : illegal = false → l.fp = false → needs = u.flagged) :
    claims ⟨tag, Completion.normalize (l.allocation u illegal needs), done⟩ =
      (!illegal && !l.fp && u.flagged && !u.xerOnly) := by
  cases hfp : l.fp with
  | true => simp [claims, Completion.normalize, Lane.allocation, hfp]
  | false =>
    cases hill : illegal with
    | true => simp [claims, ownsToken, Completion.normalize, Lane.allocation]
    | false =>
      simp [claims, ownsToken, Completion.normalize, Lane.allocation, h hill hfp, hfp,
        flagged_or_writes, Uop.xerOnly]

theorem claims_allocation0 (tag : CompletionTag) (done : Bool) :
    claims ⟨tag, Completion.normalize (allocation0 cfg i), done⟩ = flagsTok0 cfg i := by
  rw [allocation0, claims_allocation]
  · rfl
  · intro hill hfp
    simp [dispatchNeedsFlags, hill, hfp]

theorem claims_allocation1 (h : Legal cfg s i) (tag : CompletionTag) (done : Bool) :
    claims ⟨tag, Completion.normalize (allocation1 cfg i), done⟩ = flagsTok1 cfg i := by
  have hbranch : i.lane1.branch = true → (uop1 cfg i).flagged = false := fun hb =>
    Uop.flagged_eq_false_iff.2 (h.lane1.branch_flagFree hb)
  rw [allocation1, claims_allocation]
  · cases hb : i.lane1.branch with
    | true => simp [flagsTok1, d1NeedsFlags, hbranch hb]
    | false => simp [flagsTok1, d1NeedsFlags, hb]
  · intro _ hfp
    cases hb : i.lane1.branch with
    | true => simp [d1NeedsFlags, hb, hbranch hb]
    | false => simp [d1NeedsFlags, hfp, hb]

/-- The claimants that enter the queue, oldest first. -/
theorem freshClaims_eq (h : Legal cfg s i) :
    ((Completion.freshEntries cfg.cq s.cq (ports cfg s i)).filter claims).map Entry.tag =
      (if dispatch cfg s i && flagsTok0 cfg i then [allocProducer s] else []) ++
        (if dispatch1 cfg s i && flagsTok1 cfg i then [alloc1Producer cfg s i] else []) := by
  have h0 := @lane0_of_flagsTok0 cfg s i h
  have h1 := @lane1_of_flagsTok1 cfg s i h
  rw [freshEntries_eq, List.filter_append, List.map_append]
  congr 1
  · cases hd : dispatch cfg s i with
    | false => rfl
    | true =>
      cases ht : flagsTok0 cfg i with
      | true => simp [(h0 hd ht).2.1, claims_allocation0, ht]
      | false => cases i.lane0.removed <;> simp [claims_allocation0, ht]
  · cases hd : dispatch1 cfg s i with
    | false => rfl
    | true =>
      cases ht : flagsTok1 cfg i with
      | true => simp [(h1 ht).1, claims_allocation1 h, ht]
      | false => cases i.lane1.removed <;> simp [claims_allocation1 h, ht]

/-- Two claims on one edge find the token free. -/
theorem flagsTok_exclusive (hbusy : s.flags.busy = true) (ht0 : flagsTok0 cfg i = true)
    (hd : dispatch1 cfg s i = true) : flagsTok1 cfg i = false := by
  by_contra hne
  have ht1 : flagsTok1 cfg i = true := by simpa using hne
  simp [dispatch1, ht1, crWait1, crWait0, ht0, hbusy] at hd

/-- **The claims of the edge are what the unit takes.** -/
theorem claiming_eq (h : Legal cfg s i) : claiming s.flags (flagsPort cfg s i) =
    (if dispatch cfg s i && flagsTok0 cfg i then [allocProducer s] else []) ++
      (if dispatch1 cfg s i && flagsTok1 cfg i then [alloc1Producer cfg s i] else []) := by
  have hrst : i.cq.rstN = true := h.queue.running
  cases hd : dispatch cfg s i with
  | false =>
    have hd1 : dispatch1 cfg s i = false := by simp [dispatch1, hd]
    simp [claiming, allocFire, flagsPort, hd, hd1]
  | true =>
    have hrec := recovery_of_dispatch hd
    have hexcl := @flagsTok_exclusive cfg s i
    cases hbusy : s.flags.busy <;> cases ht0 : flagsTok0 cfg i <;>
      cases hd1 : dispatch1 cfg s i <;> cases ht1 : flagsTok1 cfg i <;>
      simp_all [claiming, allocFire, allocReady, flagsPort, crWait0, crWait1]

/-- The waiting place is taken only when it is free and the token is not. -/
theorem waitAlloc_spec (h : Legal cfg s i) (hwait : (flagsPort cfg s i).waitAlloc = true) :
    s.flags.waiter = false ∧
      (s.flags.busy = true ∨ allocFire s.flags (flagsPort cfg s i) = true) := by
  have hrst : i.cq.rstN = true := h.queue.running
  simp only [flagsPort, Bool.and_eq_true, Bool.or_eq_true] at hwait
  obtain ⟨hd, hw⟩ := hwait
  have hrec := recovery_of_dispatch hd
  rcases hw with hw0 | ⟨hd1, hw1⟩
  · simp only [crWait0, Bool.and_eq_true] at hw0
    have hready := (lane0_of_flagsTok0 h hd hw0.1).1
    simp only [flagsReady, hw0.1, Bool.not_true, Bool.false_or, Bool.and_eq_true,
      Bool.not_eq_true'] at hready
    exact ⟨hready.2.1, Or.inl hw0.2⟩
  · have ht1 : flagsTok1 cfg i = true := by
      simp only [crWait1, Bool.and_eq_true] at hw1
      exact hw1.1
    have hadm := hd1
    simp only [dispatch1, ht1, Bool.not_true, Bool.false_or, Bool.and_eq_true,
      Bool.not_eq_true'] at hadm
    refine ⟨hadm.1.2.1, ?_⟩
    cases hbusy : s.flags.busy with
    | true => exact Or.inl rfl
    | false =>
      refine Or.inr ?_
      have ht0 : flagsTok0 cfg i = true := by
        simpa [crWait1, ht1, hbusy] using hw1
      simp [allocFire, allocReady, flagsPort, hd, ht0, crWait0, hbusy, hrst, hrec]

end Fresh

/-! ## The invariant -/

/-- A fault reaches no entry that needs the flags. -/
def CleanFinish (cfg : Config) (s : System) (i : Input) : Prop :=
  ∀ e ∈ entries s.cq, e.packet.needsFlags = true →
    (Completion.finishAccept cfg.cq s.cq (ports cfg s i) = true →
      i.cq.result.producer = e.tag → Completion.resultFault cfg.cq (ports cfg s i) = false) ∧
    (Completion.finish2Accept cfg.cq s.cq (ports cfg s i) = true →
      i.cq.result2.producer = e.tag → Completion.result2Fault cfg.cq (ports cfg s i) = false)

/-- The claimants of the queue are the holders of the unit. -/
structure TokenInv (s : System) : Prop where
  ring : Completion.RingInv s.cq
  writes : WritesNeedFlags s
  holders : claimants s = holders s.flags
  waiter : s.flags.waiter = true → s.flags.busy = true

theorem tokenInv_reset : TokenInv System.reset where
  ring := Completion.ringInv_resetState
  writes := fun _ he => absurd he List.not_mem_nil
  holders := rfl
  waiter := nofun

section Step

variable {cfg : Config} {s : System} {i : Input}

theorem needsFlags_of_claims {e : Entry} (h : claims e = true) : e.packet.needsFlags = true := by
  simp only [claims, ownsToken, Bool.and_eq_true] at h
  exact h.1.1

/-- An edge without faults on flag writers leaves every claim as it is. -/
theorem claims_settle (hc : CleanFinish cfg s i) {e : Entry} (he : e ∈ entries s.cq) :
    claims (Completion.settle cfg.cq s.cq (ports cfg s i) e) = claims e := by
  cases hn : e.packet.needsFlags with
  | true =>
    obtain ⟨h0, h2⟩ := hc e he hn
    have hctl := Completion.controls_settle e h0 h2
    have hread : ∀ f : Entry, claims f =
        (ownsToken f.packet.controls && !f.packet.controls.fprWrite) := fun _ => rfl
    rw [hread, hread, hctl]
  | false =>
    have hold : claims e = false := by simp [claims, ownsToken, hn]
    have hnew : (Completion.settle cfg.cq s.cq (ports cfg s i) e).packet.needsFlags = false := by
      simp only [Completion.settle, Completion.finishedPacket, Completion.finishInto]
      split_ifs <;> simp [Completion.mergeFault, Completion.mergeFinish, Completion.faulted, hn]
    rw [hold]
    simp [claims, ownsToken, hnew]

/-- The claimants after the edge: those that stay and those that enter. -/
theorem claimants_step (hs : Completion.RingInv s.cq) (h : Legal cfg s i)
    (hc : CleanFinish cfg s i) : claimants (System.step cfg s i) =
      ((survivors cfg s i).filter claims).map Entry.tag ++
        claiming s.flags (flagsPort cfg s i) := by
  have hstay : ∀ l : List Entry, (∀ e ∈ l, e ∈ entries s.cq) →
      ((l.map (Completion.settle cfg.cq s.cq (ports cfg s i))).filter claims).map Entry.tag =
        (l.filter claims).map Entry.tag := by
    intro l hl
    induction l with
    | nil => rfl
    | cons e l ih =>
      have htail := ih (fun x hx => hl x (List.mem_cons_of_mem e hx))
      rw [List.map_cons, List.filter_cons, List.filter_cons,
        claims_settle hc (hl e List.mem_cons_self)]
      split_ifs
      · rw [List.map_cons, List.map_cons, htail, Completion.settle_tag]
      · exact htail
  rw [claimants, entries_step hs h, List.filter_append, List.map_append,
    hstay _ (fun e he => mem_of_mem_survivors he), freshClaims_eq h, claiming_eq h]

variable (hI : TokenInv s)
include hI

theorem claimants_nodup : (claimants s).Nodup :=
  (Completion.nodup_tags hI.ring).sublist (List.filter_sublist.map _)

/-- The entry under a holder's tag claims the token. -/
theorem claims_of_holder {e : Entry} (he : e ∈ entries s.cq) (ht : e.tag ∈ holders s.flags) :
    claims e = true := by
  rw [← hI.holders] at ht
  obtain ⟨x, hx, hxt⟩ := List.mem_map.1 ht
  rw [List.mem_filter] at hx
  have heq : x = e := List.inj_on_of_nodup_map (Completion.nodup_tags hI.ring) hx.1 he hxt
  exact heq ▸ hx.2

omit hI in
theorem owner_mem_holders (hb : s.flags.busy = true) : s.flags.owner ∈ holders s.flags := by
  simp [holders, hb]

omit hI in
theorem waiterTag_mem_holders (hw : s.flags.waiter = true) :
    s.flags.waiterTag ∈ holders s.flags := by
  simp [holders, hw]

/-- The oldest claimant owns the token. -/
theorem owner_of_cons {t : CompletionTag} {l : List CompletionTag} (h : claimants s = t :: l) :
    s.flags.busy = true ∧ s.flags.owner = t := by
  have hw := hI.waiter
  rw [hI.holders, holders] at h
  cases hb : s.flags.busy with
  | true =>
    rw [hb] at h
    exact ⟨rfl, (List.cons_eq_cons.1 h).1⟩
  | false =>
    have hwf : s.flags.waiter = false := by
      cases hv : s.flags.waiter with
      | false => rfl
      | true => rw [hw hv] at hb; cases hb
    rw [hb, hwf] at h
    cases h

omit hI in
/-- The entry the flags unit sees commit: CQ[1] when it is the pair's flag writer,
else the head. -/
def committing (cfg : Config) (s : System) (i : Input) : Entry :=
  if flagsCommit1 cfg s i then Completion.entryAt s.cq 1 else Completion.entryAt s.cq 0

omit hI in
/-- A committing pair has one flag writer at most. -/
theorem needsFlags_pair (hs : Completion.RingInv s.cq) (h1 : commit1 cfg s i = true) :
    (Completion.entryAt s.cq 0).packet.needsFlags = false ∨
      (Completion.entryAt s.cq 1).packet.needsFlags = false := by
  have hok := Completion.pairOk_of_retire1Fire h1
  rw [Completion.entryAt_zero hs, Completion.entryAt_one hs]
  simp only [Completion.pairOk, Bool.and_eq_true, Bool.not_eq_true', Bool.and_eq_false_iff] at hok
  tauto

omit hI in
theorem flagsCommit1_eq (hs : Completion.RingInv s.cq) : flagsCommit1 cfg s i =
    (commit1 cfg s i && (Completion.entryAt s.cq 1).packet.needsFlags) := by
  cases h1 : commit1 cfg s i with
  | false => simp [flagsCommit1, h1]
  | true =>
    have hctl := Completion.controls_retire1 h1
    have hneeds : (retire1O cfg s i).needsFlags = (s.cq.packets s.cq.head1).needsFlags := by
      have hread := congrArg RetirePacket.needsFlags hctl
      exact hread
    rw [flagsCommit1, h1, hneeds, Completion.entryAt_one hs]

omit hI in
/-- **Of the retiring entries only the one the unit sees may claim the token.** -/
theorem gone_eq (hs : Completion.RingInv s.cq) : ((entries s.cq).take
      (Completion.pops cfg.cq s.cq (ports cfg s i))).filter claims =
    if commit cfg s i && claims (committing cfg s i) then [committing cfg s i] else [] := by
  have hsel := @flagsCommit1_eq cfg s i hs
  cases h1 : commit1 cfg s i with
  | true =>
    have h0 : commit cfg s i = true := Completion.retireFire_of_retire1Fire h1
    have hcount := (Completion.retire1Fire_spec h1).2.2.2
    have hpops : Completion.pops cfg.cq s.cq (ports cfg s i) = 2 := by
      show (commit cfg s i).toNat + (commit1 cfg s i).toNat = 2
      rw [h0, h1]
      rfl
    have htake : (entries s.cq).take 2 =
        [Completion.entryAt s.cq 0, Completion.entryAt s.cq 1] := by
      rw [Completion.entries_take (by omega)]
      rfl
    have hquiet : ∀ e : Entry, e.packet.needsFlags = false → claims e = false := by
      intro e he
      simp [claims, ownsToken, he]
    rw [hpops, htake, committing, hsel, h0, h1]
    cases hn : (Completion.entryAt s.cq 1).packet.needsFlags with
    | true =>
      have hfirst : claims (Completion.entryAt s.cq 0) = false := by
        refine hquiet _ ((needsFlags_pair hs h1).resolve_right ?_)
        rw [hn]
        simp
      simp [List.filter_cons, hfirst]
    | false => simp [List.filter_cons, hquiet _ hn]
  | false =>
    rw [committing, hsel, h1, Bool.false_and, if_neg Bool.false_ne_true]
    cases h0 : commit cfg s i with
    | true =>
      have hcount := Completion.retireFire_count h0
      have hpops : Completion.pops cfg.cq s.cq (ports cfg s i) = 1 := by
        show (commit cfg s i).toNat + (commit1 cfg s i).toNat = 1
        rw [h0, h1]
        rfl
      have htake : (entries s.cq).take 1 = [Completion.entryAt s.cq 0] := by
        rw [Completion.entries_take (by omega)]
        rfl
      rw [hpops, htake, Bool.true_and, List.filter_cons, List.filter_nil]
    | false =>
      have hpops : Completion.pops cfg.cq s.cq (ports cfg s i) = 0 := by
        show (commit cfg s i).toNat + (commit1 cfg s i).toNat = 0
        rw [h0, h1]
        rfl
      rw [hpops]
      rfl

omit hI in
theorem commitTag_eq (hs : Completion.RingInv s.cq) (h : commit cfg s i = true) :
    (flagsPort cfg s i).commitTag = (committing cfg s i).tag := by
  show (if flagsCommit1 cfg s i then Completion.retire1Tag s.cq
    else Completion.retireTag s.cq) = _
  unfold committing
  split_ifs with hsel
  · rw [flagsCommit1_eq hs, Bool.and_eq_true] at hsel
    rw [Completion.retire1Tag_eq hs hsel.1, Completion.entryAt_one hs]
  · rw [Completion.retireTag_eq hs h, Completion.entryAt_zero hs]

omit hI in
/-- The committing entry is in the queue. -/
theorem committing_mem (h : commit cfg s i = true) : committing cfg s i ∈ entries s.cq := by
  have hcount := Completion.retireFire_count h
  unfold committing
  split_ifs with hsel
  · have h1 : commit1 cfg s i = true := by
      simp only [flagsCommit1, Bool.and_eq_true] at hsel
      exact hsel.1
    exact Completion.mem_entries.2 ⟨1, (Completion.retire1Fire_spec h1).2.2.2, rfl⟩
  · exact Completion.mem_entries.2 ⟨0, by omega, rfl⟩

/-- **The owner commits exactly when a claimant retires.** -/
theorem ownerCommit_iff (h : Legal cfg s i) :
    ownerCommit s.flags (flagsPort cfg s i) = true ↔
      (((entries s.cq).take (Completion.pops cfg.cq s.cq (ports cfg s i))).filter
        claims).map Entry.tag ≠ [] := by
  rw [gone_eq hI.ring]
  cases hcm : commit cfg s i with
  | false => simp [ownerCommit, flagsPort, hcm]
  | true =>
    have hport : (flagsPort cfg s i).commit = true := hcm
    rw [ownerCommit, hport, commitTag_eq hI.ring hcm]
    cases hcl : claims (committing cfg s i) with
    | true =>
      have hsplit := entries_split hI.ring h
      have hcons : claimants s = (committing cfg s i).tag ::
          ((survivors cfg s i ++ (entries s.cq).drop
            (Completion.kept cfg.cq s.cq (ports cfg s i))).filter claims).map Entry.tag := by
        rw [claimants]
        conv_lhs => rw [hsplit]
        rw [List.filter_append, gone_eq hI.ring, hcm, hcl]
        rfl
      obtain ⟨hb, ho⟩ := owner_of_cons hI hcons
      simp [hb, ho]
    | false =>
      have hno : ¬ (s.flags.busy = true ∧ (committing cfg s i).tag = s.flags.owner) := by
        rintro ⟨hb, ht⟩
        rw [claims_of_holder hI (committing_mem hcm) (ht ▸ owner_mem_holders hb)] at hcl
        cases hcl
      simpa using hno

omit hI in
/-- The survivors the unit is shown in a recovery. -/
theorem survivors_of_recovery (hrec : recovery cfg s i = true) :
    (flagsPort cfg s i).survivors = (survivors cfg s i).map (fun e => (e.packet, e.tag)) :=
  if_pos hrec

theorem ownerSurvives_iff (hrec : recovery cfg s i = true) :
    ownerSurvives s.flags (flagsPort cfg s i) = true ↔ s.flags.busy = true ∧
      s.flags.owner ∈ ((survivors cfg s i).filter claims).map Entry.tag := by
  have hnodup := claimants_nodup hI
  rw [hI.holders] at hnodup
  simp only [ownerSurvives, survivors_of_recovery hrec, List.any_map, List.any_eq_true,
    Function.comp_apply, Bool.and_eq_true, Bool.not_eq_true', decide_eq_true_eq, List.mem_map,
    List.mem_filter]
  constructor
  · rintro ⟨e, he, ⟨⟨-, -⟩, hb⟩, ht⟩
    exact ⟨hb, e, ⟨he, claims_of_holder hI (mem_of_mem_survivors he)
      (ht ▸ owner_mem_holders hb)⟩, ht⟩
  · rintro ⟨hb, e, ⟨he, hcl⟩, ht⟩
    refine ⟨e, he, ⟨⟨?_, needsFlags_of_claims hcl⟩, hb⟩, ht⟩
    rw [ht, Bool.and_eq_false_iff]
    cases hw : s.flags.waiter with
    | false => exact Or.inl rfl
    | true =>
      refine Or.inr (decide_eq_false ?_)
      rw [holders, hb, hw] at hnodup
      simpa using hnodup

theorem waiterSurvives_iff (hrec : recovery cfg s i = true) :
    waiterSurvives s.flags (flagsPort cfg s i) = true ↔ s.flags.waiter = true ∧
      s.flags.waiterTag ∈ ((survivors cfg s i).filter claims).map Entry.tag := by
  simp only [waiterSurvives, survivors_of_recovery hrec, List.any_map, List.any_eq_true,
    Function.comp_apply, Bool.and_eq_true, decide_eq_true_eq, List.mem_map, List.mem_filter]
  constructor
  · rintro ⟨e, he, hw, ht⟩
    exact ⟨hw, e, ⟨he, claims_of_holder hI (mem_of_mem_survivors he)
      (ht ▸ waiterTag_mem_holders hw)⟩, ht⟩
  · rintro ⟨hw, e, ⟨he, -⟩, ht⟩
    exact ⟨e, he, hw, ht⟩

omit hI in
/-- The holders that retire, stay and are removed. -/
theorem claimants_split (hs : Completion.RingInv s.cq) (h : Legal cfg s i) : claimants s =
    (((entries s.cq).take (Completion.pops cfg.cq s.cq (ports cfg s i))).filter claims).map
        Entry.tag ++
      ((survivors cfg s i).filter claims).map Entry.tag ++
      (((entries s.cq).drop (Completion.kept cfg.cq s.cq (ports cfg s i))).filter claims).map
        Entry.tag := by
  rw [claimants]
  conv_lhs => rw [entries_split hs h]
  simp only [List.filter_append, List.map_append, List.append_assoc]

/-- **The holders after the edge** are the claimants that stay and those that
enter. -/
theorem holders_eq (h : Legal cfg s i) : holders (System.step cfg s i).flags =
    ((survivors cfg s i).filter claims).map Entry.tag ++
      claiming s.flags (flagsPort cfg s i) := by
  have hrst : (flagsPort cfg s i).rstN = true := h.queue.running
  have hsplit := claimants_split hI.ring h
  rw [hI.holders] at hsplit
  have hflags : (System.step cfg s i).flags = Flags.step s.flags (flagsPort cfg s i) := by
    rw [step_eq h]
  rw [hflags]
  cases hrec : recovery cfg s i with
  | false =>
    have hdrop : (entries s.cq).drop (Completion.kept cfg.cq s.cq (ports cfg s i)) = [] := by
      rw [kept_of_not_recovery hrec, List.drop_eq_nil_iff, Completion.entries_length]
    rw [hdrop, List.filter_nil, List.map_nil, List.append_nil] at hsplit
    refine holders_of_running hrst hrec hI.waiter hsplit ?_ (ownerCommit_iff hI h)
      (waitAlloc_spec h)
    rw [gone_eq hI.ring]
    split_ifs <;> simp
  | true =>
    have hd : dispatch cfg s i = false := by
      by_contra hne
      rw [recovery_of_dispatch (by simpa using hne)] at hrec
      cases hrec
    have hnone : (flagsPort cfg s i).waitAlloc = false := by simp [flagsPort, hd]
    have hnew : claiming s.flags (flagsPort cfg s i) = [] := by
      simp [claiming, allocFire, flagsPort, hd]
    have hnodup := claimants_nodup hI
    rw [hI.holders] at hnodup
    rw [hnew, List.append_nil]
    exact holders_of_recovery hrst hrec hI.waiter hsplit hnodup (ownerSurvives_iff hI hrec)
      (waiterSurvives_iff hI hrec) hnone

/-- **The token invariant survives every legal edge.** -/
theorem tokenInv_step (h : Legal cfg s i) (hc : CleanFinish cfg s i) :
    TokenInv (System.step cfg s i) where
  ring := ringInv_step hI.ring h
  writes := writesNeedFlags_step hI.ring h hI.writes
  holders := by rw [claimants_step hI.ring h hc, holders_eq hI h]
  waiter := by
    rw [step_eq h]
    exact busy_of_waiter h.queue.running hI.waiter (waitAlloc_spec h)

end Step

/-! ## The token on one edge -/

/-- The tags of the entries in flight. -/
def tags (s : System) : List CompletionTag := (entries s.cq).map Entry.tag

/-- The entry in the waiting place, from before the edge or taken on it. -/
def waiting (f : State) (p : Port) : List CompletionTag :=
  (if f.waiter then [f.waiterTag] else []) ++ (if p.waitAlloc then [p.waitTag] else [])

/-- What becomes of the token on one edge. -/
structure Handover (cfg : Config) (s : System) (i : Input) : Prop where
  /-- The owner keeps it while its entry is in flight. -/
  stays : s.flags.busy = true → s.flags.owner ∈ tags (System.step cfg s i) →
    (System.step cfg s i).flags.busy = true ∧
      (System.step cfg s i).flags.owner = s.flags.owner ∧
      handoff s.flags (flagsPort cfg s i) = false
  /-- When the owner leaves, a waiter that stays takes it and waits no more. -/
  passes : s.flags.busy = true → s.flags.owner ∉ tags (System.step cfg s i) →
    ∀ w ∈ waiting s.flags (flagsPort cfg s i), w ∈ tags (System.step cfg s i) →
      handoff s.flags (flagsPort cfg s i) = true ∧
        (System.step cfg s i).flags.busy = true ∧ (System.step cfg s i).flags.owner = w ∧
        (System.step cfg s i).flags.waiter = false
  /-- When the owner leaves and no waiter stays, it is free. -/
  freed : s.flags.busy = true → s.flags.owner ∉ tags (System.step cfg s i) →
    (∀ w ∈ waiting s.flags (flagsPort cfg s i), w ∉ tags (System.step cfg s i)) →
      handoff s.flags (flagsPort cfg s i) = false ∧
        (System.step cfg s i).flags.busy = false ∧ (System.step cfg s i).flags.waiter = false
  /-- It is handed on in no other case. -/
  only : handoff s.flags (flagsPort cfg s i) = true →
    s.flags.busy = true ∧ s.flags.owner ∉ tags (System.step cfg s i)

section Edge

variable {cfg : Config} {s : System} {i : Input}

/-- The tags after the edge: those that stay and those that enter. -/
theorem tags_step (hs : Completion.RingInv s.cq) (h : Legal cfg s i) :
    tags (System.step cfg s i) = (survivors cfg s i).map Entry.tag ++
      Completion.allocatedTags cfg.cq s.cq (ports cfg s i) := by
  rw [tags, entries_step hs h, List.map_append, List.map_map, Completion.freshEntries_tag]
  rfl

/-- The holders that stay. -/
def staying (cfg : Config) (s : System) (i : Input) : List CompletionTag :=
  ((survivors cfg s i).filter claims).map Entry.tag

/-- Without a recovery every holder stays or retires. -/
theorem holders_split_of_running (hI : TokenInv s) (h : Legal cfg s i)
    (hrec : recovery cfg s i = false) : ∃ gone : List CompletionTag,
      holders s.flags = gone ++ staying cfg s i ∧ gone.length ≤ 1 ∧
        (ownerCommit s.flags (flagsPort cfg s i) = true ↔ gone ≠ []) := by
  have hsplit := claimants_split hI.ring h
  have hdrop : (entries s.cq).drop (Completion.kept cfg.cq s.cq (ports cfg s i)) = [] := by
    rw [kept_of_not_recovery hrec, List.drop_eq_nil_iff, Completion.entries_length]
  rw [hI.holders, hdrop, List.filter_nil, List.map_nil, List.append_nil] at hsplit
  refine ⟨_, hsplit, ?_, ownerCommit_iff hI h⟩
  rw [gone_eq hI.ring]
  split_ifs <;> simp

/-- The token is handed on exactly when the owner leaves and a waiter stays or
enters. -/
theorem handoff_iff (hI : TokenInv s) (h : Legal cfg s i) (hb : s.flags.busy = true) :
    handoff s.flags (flagsPort cfg s i) = true ↔ s.flags.owner ∉ staying cfg s i ∧
      (s.flags.waiter = true ∧ s.flags.waiterTag ∈ staying cfg s i ∨
        (flagsPort cfg s i).waitAlloc = true) := by
  have hport : (flagsPort cfg s i).recovery = recovery cfg s i := rfl
  unfold handoff
  rw [hport]
  cases hrec : recovery cfg s i with
  | true =>
    have hnone : (flagsPort cfg s i).waitAlloc = false := by
      cases hd : dispatch cfg s i with
      | false => simp [flagsPort, hd]
      | true =>
        rw [recovery_of_dispatch hd] at hrec
        cases hrec
    have hos := ownerSurvives_iff hI hrec
    have hws := waiterSurvives_iff hI hrec
    rw [hb, eq_self_iff_true, true_and] at hos
    simp only [if_true, hnone, Bool.and_eq_true, Bool.not_eq_true', hb, true_and, hws,
      Bool.false_eq_true, or_false, ← Bool.not_eq_true, hos, staying, and_assoc]
    tauto
  | false =>
    obtain ⟨gone, hsplit, hlen, hoc⟩ := holders_split_of_running hI h hrec
    have hnodup := claimants_nodup hI
    rw [hI.holders, hsplit] at hnodup
    simp only [Bool.false_eq_true, if_false, Bool.and_eq_true, Bool.or_eq_true, hoc]
    rw [holders, hb] at hsplit
    cases gone with
    | nil =>
      have hin : s.flags.owner ∈ staying cfg s i := by
        rw [List.nil_append] at hsplit
        rw [← hsplit]
        simp
      simp [hin]
    | cons x xs =>
      have hxs : xs = [] := by simpa using hlen
      subst hxs
      obtain ⟨hx, hrest⟩ := List.cons_eq_cons.1 hsplit
      have hrest : (if s.flags.waiter = true then [s.flags.waiterTag] else []) =
          staying cfg s i := hrest
      have hout : s.flags.owner ∉ staying cfg s i := by
        rw [hx]
        exact (List.nodup_cons.1 hnodup).1
      have hwt : s.flags.waiter = true → s.flags.waiterTag ∈ staying cfg s i := by
        intro hw
        rw [← hrest, hw]
        simp
      simp only [ne_eq, reduceCtorEq, not_false_eq_true, true_and, hout]
      tauto

/-- A holder is in flight after the edge when it stays. -/
theorem mem_tags_iff (hI : TokenInv s) (h : Legal cfg s i) {t : CompletionTag}
    (ht : t ∈ holders s.flags) : t ∈ tags (System.step cfg s i) ↔ t ∈ staying cfg s i := by
  have hold : t ∈ tags s := by
    rw [← hI.holders] at ht
    exact (List.filter_sublist.map _).subset ht
  rw [tags_step hI.ring h, List.mem_append, or_iff_left fun hnew =>
    Completion.fresh_not_mem hI.ring h.queue hnew hold]
  constructor
  · intro hmem
    obtain ⟨e, he, rfl⟩ := List.mem_map.1 hmem
    exact List.mem_map_of_mem (List.mem_filter.2
      ⟨he, claims_of_holder hI (mem_of_mem_survivors he) ht⟩)
  · intro hmem
    exact (List.filter_sublist.map _).subset hmem

theorem staying_eq (hI : TokenInv s) (h : Legal cfg s i) :
    staying cfg s i = (holders s.flags).filter (fun t => t ∈ staying cfg s i) := by
  have hsplit := claimants_split hI.ring h
  have hnodup := claimants_nodup hI
  rw [hI.holders] at hsplit hnodup
  exact middle_eq_filter hsplit hnodup

theorem claiming_of_busy (hb : s.flags.busy = true) : claiming s.flags (flagsPort cfg s i) =
    if (flagsPort cfg s i).waitAlloc then [(flagsPort cfg s i).waitTag] else [] := by
  have hfire : allocFire s.flags (flagsPort cfg s i) = false := by
    cases hn : (flagsPort cfg s i).allocNeedsFlags <;> simp [allocFire, allocReady, hn, hb]
  rw [claiming, hfire]
  rfl

theorem owner_of_single {f : State} {w : CompletionTag} (hw : f.waiter = true → f.busy = true)
    (h : holders f = [w]) : f.busy = true ∧ f.owner = w ∧ f.waiter = false := by
  cases hb : f.busy <;> cases hv : f.waiter <;> simp_all [holders]

theorem free_of_nil {f : State} (h : holders f = []) : f.busy = false ∧ f.waiter = false := by
  cases hb : f.busy <;> cases hv : f.waiter <;> simp_all [holders]

/-- **The token on one edge**: it stays with an owner in flight, passes to the
waiter when the owner retires or is removed, and is freed when both are gone. -/
theorem handover_step (hI : TokenInv s) (h : Legal cfg s i) (hc : CleanFinish cfg s i) :
    Handover cfg s i := by
  have hI' := tokenInv_step hI h hc
  have hafter : holders (System.step cfg s i).flags =
      staying cfg s i ++ claiming s.flags (flagsPort cfg s i) := holders_eq hI h
  have hwa := @waitAlloc_spec cfg s i h
  have hentry : (flagsPort cfg s i).waitAlloc = true →
      (flagsPort cfg s i).waitTag ∈ tags (System.step cfg s i) := by
    intro ha
    have hmem : (flagsPort cfg s i).waitTag ∈ holders (System.step cfg s i).flags := by
      rw [hafter, claiming, ha]
      simp
    rw [← hI'.holders] at hmem
    exact (List.filter_sublist.map _).subset hmem
  have howner : s.flags.busy = true → (s.flags.owner ∈ tags (System.step cfg s i) ↔
      s.flags.owner ∈ staying cfg s i) := fun hb => mem_tags_iff hI h (owner_mem_holders hb)
  have hwaiter : s.flags.waiter = true → (s.flags.waiterTag ∈ tags (System.step cfg s i) ↔
      s.flags.waiterTag ∈ staying cfg s i) :=
    fun hw => mem_tags_iff hI h (waiterTag_mem_holders hw)
  -- what stays when the owner leaves
  have hleft : s.flags.busy = true → s.flags.owner ∉ staying cfg s i → staying cfg s i =
      if s.flags.waiter = true ∧ s.flags.waiterTag ∈ staying cfg s i then [s.flags.waiterTag]
      else [] := by
    intro hb hout
    conv_lhs => rw [staying_eq hI h, holders, hb]
    cases hw : s.flags.waiter <;> by_cases hin : s.flags.waiterTag ∈ staying cfg s i <;>
      simp [hout, hin]
  refine ⟨?_, ?_, ?_, ?_⟩
  · intro hb hin
    rw [howner hb] at hin
    have hcons : ∃ l, claimants (System.step cfg s i) = s.flags.owner :: l := by
      rw [hI'.holders, hafter, staying_eq hI h, holders, hb]
      simp [hin]
    obtain ⟨l, hl⟩ := hcons
    obtain ⟨hb', ho'⟩ := owner_of_cons hI' hl
    refine ⟨hb', ho', ?_⟩
    rw [Bool.eq_false_iff, Ne, handoff_iff hI h hb]
    exact fun hno => hno.1 hin
  · intro hb hout w hw hin
    rw [howner hb] at hout
    have hst := hleft hb hout
    have hcl := @claiming_of_busy cfg s i hb
    rw [waiting, List.mem_append] at hw
    rcases hw with hw | hw
    · have hwq : s.flags.waiter = true := by
        by_contra hne
        simp [hne] at hw
      have hwt : w = s.flags.waiterTag := by simpa [hwq] using hw
      have hna : (flagsPort cfg s i).waitAlloc = false := by
        by_contra hne
        rw [(hwa (by simpa using hne)).1] at hwq
        cases hwq
      subst hwt
      rw [hwaiter hwq] at hin
      rw [if_pos ⟨hwq, hin⟩] at hst
      rw [hcl, hna, hst] at hafter
      exact ⟨(handoff_iff hI h hb).2 ⟨hout, Or.inl ⟨hwq, hin⟩⟩,
        owner_of_single hI'.waiter hafter⟩
    · have ha : (flagsPort cfg s i).waitAlloc = true := by
        by_contra hne
        simp [hne] at hw
      have hwt : w = (flagsPort cfg s i).waitTag := by simpa [ha] using hw
      have hwq := (hwa ha).1
      rw [if_neg (by simp [hwq])] at hst
      rw [hcl, ha, hst] at hafter
      subst hwt
      exact ⟨(handoff_iff hI h hb).2 ⟨hout, Or.inr ha⟩, owner_of_single hI'.waiter hafter⟩
  · intro hb hout hnone
    rw [howner hb] at hout
    have hst := hleft hb hout
    have hna : (flagsPort cfg s i).waitAlloc = false := by
      by_contra hne
      have ha : (flagsPort cfg s i).waitAlloc = true := by simpa using hne
      exact hnone _ (by simp [waiting, ha]) (hentry ha)
    have hgone : ¬ (s.flags.waiter = true ∧ s.flags.waiterTag ∈ staying cfg s i) := by
      rintro ⟨hw, hin⟩
      exact hnone _ (by simp [waiting, hw]) ((hwaiter hw).2 hin)
    rw [if_neg hgone] at hst
    rw [claiming_of_busy hb, hna, hst] at hafter
    refine ⟨?_, free_of_nil hafter⟩
    rw [Bool.eq_false_iff, Ne, handoff_iff hI h hb, hna]
    rintro ⟨-, hw | hw⟩
    · exact hgone hw
    · cases hw
  · intro hh
    have hb : s.flags.busy = true := by
      by_contra hne
      simp [handoff, ownerCommit, hne] at hh
    exact ⟨hb, fun hin => ((handoff_iff hI h hb).1 hh).1 ((howner hb).1 hin)⟩

end Edge

end Flags
end SloPPC603
