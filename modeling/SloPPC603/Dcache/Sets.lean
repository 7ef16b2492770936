import SloPPC603.Clocked.Recency
import SloPPC603.Dcache.Structure

/-!
# What a set holds

The state words and the ranks of a set in every state the cache can reach, resets
included, and the lookup registers against the arrays.

* `DirtyInv` — in a set that holds state a modified way is valid.
* `RankInv` — the ranks of a set with a valid way are an order.
* `lastRequest` — the address last accepted.
* `sets_well_formed` — the arrays and the lookup, in every reachable state.
-/

namespace SloPPC603
namespace Dcache

open Clocked

variable {cfg : Config} {s : State} {i : Input}

/-! ## Modified ways -/

/-- A way marked modified is valid, where the set's state counts. -/
def DirtyInv (s : State) : Prop :=
  ∀ set w, s.setValid set = true → s.stDirty set w = true → s.stValid set w = true

theorem vld_of_drt (hl : LookupInv s) {w : ℕ} (h : s.drt w = true) : s.vld w = true := by
  rw [hl.drt, dirtyAt, Bool.and_eq_true] at h
  rw [hl.vld]
  exact h.1

theorem lkOp_dirty_le (hl : LookupInv s) (hhit : HitWay cfg s)
    (hv : hit cfg s = true → s.vld (hway cfg s) = true) {w : ℕ}
    (h : (lkOp cfg s i).dirty w = true) : (lkOp cfg s i).valid w = true := by
  have hle : ∀ w, s.drt w = true → s.vld w = true := fun _ => vld_of_drt hl
  unfold HitWay at hhit
  unfold lkOp at h ⊢
  cases hop : s.reqOp <;>
    simp only [lkLoad, lkStore, lkDcbz, lkDcbf, lkDcbst, lkDcbi, lkTouch, lkInhibited, hop] at h ⊢ <;>
    (try split_ifs at h ⊢) <;> simp only [lkDefault, lkModify, lkInvalidate, setWay] at h ⊢ <;>
    (try split_ifs at h ⊢) <;> simp_all

/-- A lookup marks only valid ways modified. -/
theorem lk_dirty_le (hl : LookupInv s) (hhit : HitWay cfg s)
    (hv : hit cfg s = true → s.vld (hway cfg s) = true) {w : ℕ}
    (h : (lk cfg s i).dirty w = true) : (lk cfg s i).valid w = true := by
  have hle := @lkOp_dirty_le cfg s i hl hhit hv w
  simp only [lk, lkTea, lkPlanCob, lkAllocate] at h ⊢
  split_ifs at h ⊢ <;> simp only [setWay] at h ⊢ <;> (try split_ifs at h ⊢) <;> exact hle h

/-- **A state write marks only valid ways modified.** -/
theorem stWdirty_le (ha : ArrayInv cfg s) {w : ℕ} (h : stWdirty cfg s i w = true) :
    stWvalid cfg s i w = true := by
  unfold stWdirty at h
  unfold stWvalid
  cases hsnp : s.snpValid with
  | true =>
    simp only [hsnp, if_true, sDirty, sValid] at h ⊢
    split_ifs at h ⊢ with h1 h2 h3
    all_goals first
      | exact vld_of_drt ha.lookup h
      | simp_all
  | false =>
    simp only [hsnp, Bool.false_eq_true, if_false] at h ⊢
    cases hgo : lkGo cfg s i with
    | true =>
      simp only [hgo, if_true] at h ⊢
      have hway := hitWay_lookup ha.lookup ha.owner ha.lines.unique hgo
      refine lk_dirty_le ha.lookup hway (fun hh => ?_) h
      rw [ha.lookup.vld]
      exact ((ha.lookup.hitw _).1 (hway hh).2.1).1
    | false =>
      simp only [hgo, Bool.false_eq_true, if_false] at h ⊢
      split_ifs at h ⊢
      · simp only [setWay] at h ⊢
        split_ifs at h ⊢
        · rfl
        · exact vld_of_drt ha.lookup h
      · exact vld_of_drt ha.lookup h

theorem dirtyInv_step (ha : ArrayInv cfg s) (hd : DirtyInv s) : DirtyInv (running cfg s i) := by
  intro set w hset hdirty
  have hvalid : (running cfg s i).stValid set w =
      if stWe cfg s i ∧ set = stWaddr cfg s then stWvalid cfg s i w else s.stValid set w := rfl
  rw [stDirty_running] at hdirty
  rw [hvalid]
  split_ifs at hdirty ⊢ with hwe
  · exact stWdirty_le ha hdirty
  · refine hd set w ?_ hdirty
    have hnext : nextSetValid cfg s i set = true := hset
    rw [nextSetValid, if_neg hwe] at hnext
    split_ifs at hnext
    exact hnext

/-! ## The ranks -/

/-- The ranks of a set with a valid way are an order of its ways. -/
def RankInv (cfg : Config) (s : State) : Prop :=
  ∀ set, (∃ w < cfg.wayCount, validAt s set w = true) →
    Ranked (Set.Iio cfg.wayCount) cfg.wayCount (s.lruRam set)

theorem ranked_seed : Ranked (Set.Iio cfg.wayCount) cfg.wayCount lruSeed := Set.bijOn_id _

theorem ranked_lruTouch {ranks : ℕ → ℕ} (h : Ranked (Set.Iio cfg.wayCount) cfg.wayCount ranks)
    {way : ℕ} (hway : way < cfg.wayCount) :
    Ranked (Set.Iio cfg.wayCount) cfg.wayCount (lruTouch cfg ranks way) := by
  refine (ranked_touch h (Set.mem_Iio.2 hway)).congr fun w _ => ?_
  have hlt : ranks way < cfg.wayCount := h.mapsTo (Set.mem_Iio.2 hway)
  simp only [lruTouch, touch]
  split_ifs
  · rfl
  · rw [Nat.mod_eq_of_lt (by omega)]
  · rfl

theorem lkOp_lruWe (h : (lkOp cfg s i).lruWe = true) :
    hit cfg s = true ∧ (lkOp cfg s i).way = hway cfg s ∧ (lkOp cfg s i).alloc = false := by
  unfold lkOp at h ⊢
  cases hop : s.reqOp <;> simp only [hop] at h <;>
    simp only [lkLoad, lkStore, lkDcbz, lkDcbf, lkDcbst, lkDcbi, lkTouch, lkInhibited, hop] at h ⊢ <;>
    (try split_ifs at h ⊢) <;> simp_all [lkDefault, lkModify, lkInvalidate]

/-- A lookup ranks the way that hits. -/
theorem lk_lruWe (h : (lk cfg s i).lruWe = true) :
    hit cfg s = true ∧ (lk cfg s i).way = hway cfg s := by
  cases htea : teaBlocksLoad s i with
  | true => simp [lk, lkTea, htea] at h
  | false =>
    have hop : (lkOp cfg s i).lruWe = true := by
      simp only [lk_eq htea, lkPlanCob, lkAllocate] at h
      split_ifs at h <;> exact h
    obtain ⟨hhit, hway, halloc⟩ := lkOp_lruWe hop
    exact ⟨hhit, by simp [lk_eq htea, lkPlanCob, lkAllocate, halloc, hway]⟩

theorem lruRam_running (set : ℕ) : (running cfg s i).lruRam set =
    if lruWe cfg s i ∧ set = reqSet cfg s then lruWdata cfg s i else s.lruRam set := by
  funext w
  show nextLruRam cfg s i set w = _
  unfold nextLruRam
  split_ifs <;> rfl

/-- **A rank write leaves the ranks of its set an order.** -/
theorem ranked_lruWdata (ha : ArrayInv cfg s) (hr : RankInv cfg s) (h : lruWe cfg s i = true) :
    Ranked (Set.Iio cfg.wayCount) cfg.wayCount (lruWdata cfg s i) := by
  have hsnp : s.snpValid = false := by
    cases hsnp : s.snpValid with
    | false => rfl
    | true => simp [lruWe, hsnp] at h
  cases hgo : lkGo cfg s i with
  | true =>
    have hset := (ha.owner.req hsnp (by simp [(lkGo_spec hgo).1])).1
    have hlru : (lk cfg s i).lruWe = true := by simpa [lruWe, hsnp, hgo] using h
    obtain ⟨hhit, hway⟩ := lk_lruWe hlru
    obtain ⟨hlt, hhw, -⟩ := hitWay_lookup ha.lookup ha.owner ha.lines.unique hgo hhit
    have hold := hr s.rdSet ⟨_, hlt, ((ha.lookup.hitw _).1 hhw).1⟩
    have hdata : lruWdata cfg s i = lruTouch cfg (lruRdata s) (Dcache.hway cfg s) := by
      funext w
      simp [lruWdata, hgo, hway]
    rw [hdata]
    exact ranked_lruTouch hold hlt
  | false =>
    have hinst : installGo s = true := by simpa [lruWe, hsnp, hgo] using h
    have hphase : phaseOf s.state = some .install := by rw [(installGo_spec hinst).1]; rfl
    obtain ⟨hlt, -⟩ := ha.lines.install _ hphase (firstStep_eq_install (ha.control _ hphase).2)
    have hdata : lruWdata cfg s i =
        lruTouch cfg (if anyValid cfg s then lruRdata s else lruSeed) s.way := by
      funext w
      simp [lruWdata, hsnp, hgo, hinst]
    rw [hdata]
    refine ranked_lruTouch ?_ hlt
    cases hany : anyValid cfg s with
    | true =>
      obtain ⟨w, hw, hv⟩ := List.any_eq_true.1 hany
      rw [ha.lookup.vld] at hv
      exact hr s.rdSet ⟨w, List.mem_range.1 hw, hv⟩
    | false => exact ranked_seed

theorem rankInv_step (ha : ArrayInv cfg s) (hr : RankInv cfg s) : RankInv cfg (running cfg s i) := by
  rintro set ⟨w, hw, hv⟩
  rw [lruRam_running]
  split_ifs with hwe
  · exact ranked_lruWdata ha hr hwe.1
  · rcases validAt_of_running ha.lookup ha.owner hv with hold | ⟨hinst, -, hset⟩
    · exact hr set ⟨w, hw, hold⟩
    · -- an install writes the ranks of its set
      exact absurd ⟨by simp [lruWe, (installGo_spec hinst).2, lkGo_of_installGo hinst, hinst], hset⟩ hwe

/-! ## The address a lookup is for -/

section Run

variable (r : Run (machine cfg))

/-- The address of the request last accepted since reset. -/
def lastRequest (n : ℕ) : Option (BitVec 32) :=
  r.history none (fun a s i =>
    if i.rstN = false then none else if reqAccept cfg s i then some i.reqAddr else a) n

/-- What a set and the lookup registers hold in one state. -/
structure SetSpec (n : ℕ) : Prop where
  unique : ∀ set < cfg.setCount, ∀ v < cfg.wayCount, ∀ w < cfg.wayCount,
    validAt (r.state n) set v = true → validAt (r.state n) set w = true →
      (r.state n).tagRam v set = (r.state n).tagRam w set → v = w
  dirty : ∀ set w, (r.state n).setValid set = true → (r.state n).stDirty set w = true →
    validAt (r.state n) set w = true
  ranks : ∀ set, (∃ w < cfg.wayCount, validAt (r.state n) set w = true) →
    Ranked (Set.Iio cfg.wayCount) cfg.wayCount ((r.state n).lruRam set)
  lookup : LookupInv (r.state n)
  snoop : (r.state n).snpValid = true → ∃ m, n = m + 1 ∧ (r.input m).snoopValid = true ∧
    (r.state n).rdSet = cfg.setOf (lineOf (r.input m).snoopAddr) ∧
      (r.state n).rdTag = cfg.tagOf (lineOf (r.input m).snoopAddr)
  request : (r.state n).snpValid = false → (r.state n).state ≠ .idle →
    ∃ a, lastRequest r n = some a ∧ (r.state n).rdSet = cfg.setOf (lineOf a) ∧
      (r.state n).rdTag = cfg.tagOf (lineOf a)

variable {r}

/-- What every edge keeps, whether or not it is in reset. -/
structure SetsInv (cfg : Config) (s : State) : Prop where
  arrays : ArrayInv cfg s
  dirty : DirtyInv s
  ranks : RankInv cfg s

theorem setsInv_initial (h : (machine cfg).Initial s) : SetsInv cfg s := by
  refine ⟨arrayInv_initial h, ?_, ?_⟩
  · obtain ⟨s₀, i, hrst, rfl⟩ := h
    intro set w hset
    simp [step, hrst, reset] at hset
  · rintro set ⟨w, -, hv⟩
    rw [validAt_initial h] at hv
    cases hv

theorem setsInv_run (n : ℕ) : SetsInv cfg (r.state n) := by
  induction n with
  | zero => exact setsInv_initial r.initial
  | succ n ih =>
    cases hrst : (r.input n).rstN with
    | false => exact setsInv_initial ⟨r.state n, r.input n, hrst, rfl⟩
    | true =>
      have hn : r.state (n + 1) = running cfg (r.state n) (r.input n) := step_running hrst
      rw [hn]
      exact ⟨arrayInv_step hrst ih.arrays, dirtyInv_step ih.arrays ih.dirty,
        rankInv_step ih.arrays ih.ranks⟩

/-- An operation in progress is the request last accepted. -/
theorem lastRequest_run (n : ℕ) (hne : (r.state n).state ≠ .idle) :
    lastRequest r n = some (r.state n).reqAddr := by
  induction n with
  | zero => exact absurd (state_initial r.initial).1 hne
  | succ n ih =>
    cases hrst : (r.input n).rstN with
    | false =>
      have hinit : (machine cfg).Initial (r.state (n + 1)) := ⟨r.state n, r.input n, hrst, rfl⟩
      exact absurd (state_initial hinit).1 hne
    | true =>
      have hn : r.state (n + 1) = running cfg (r.state n) (r.input n) := step_running hrst
      have hlast : lastRequest r (n + 1) = if reqAccept cfg (r.state n) (r.input n) then
          some (r.input n).reqAddr else lastRequest r n := by
        simp [lastRequest, Run.history_succ, hrst]
      rw [hlast, hn]
      cases hacc : reqAccept cfg (r.state n) (r.input n) with
      | true => simp [running, hacc]
      | false =>
        have haddr := (show (running cfg (r.state n) (r.input n)).reqAddr = (r.state n).reqAddr by
          simp [running, hacc])
        rw [haddr, if_neg (by simp)]
        refine ih fun hidle => ?_
        -- from rest only an accept starts an operation
        rw [hn] at hne
        apply hne
        show nextState cfg (r.state n) (r.input n) = .idle
        simp [nextState, stepDone, hidle, hacc]

/-- **The sets and the lookup are well formed** in every state of every run: no line
in two ways, no modified way that is not valid, ranks that are an order, lookup
registers that are the arrays, and a lookup with a consumer made for that consumer's
own accepted address. -/
theorem sets_well_formed (r : Run (machine cfg)) (n : ℕ) : SetSpec r n where
  unique := by
    intro set hset v hv w hw hvalid hvalid' htag
    have hat : ∀ u, validAt (r.state n) set u = true → (r.state n).tagRam u set =
        (r.state n).tagRam v set → holds cfg (r.state n) u
          (cfg.lineAt ((r.state n).tagRam v set) set) := by
      intro u hu hut
      unfold holds
      rw [setOf_lineAt hset, tagOf_lineAt hset]
      exact ⟨hu, hut⟩
    exact (setsInv_run n).arrays.lines.unique _ v hv w hw (hat v hvalid rfl)
      (hat w hvalid' htag.symm)
  dirty := by
    intro set w hset hdirty
    rw [validAt, hset, Bool.true_and]
    exact (setsInv_run n).dirty set w hset hdirty
  ranks := (setsInv_run n).ranks
  lookup := (setsInv_run n).arrays.lookup
  snoop := by
    intro hsnp
    cases n with
    | zero => exact absurd hsnp (by simp [(state_initial r.initial).2.1])
    | succ n =>
      have hown := (setsInv_run (n + 1)).arrays.owner.snoop hsnp
      refine ⟨n, rfl, ?_⟩
      cases hrst : (r.input n).rstN with
      | false =>
        have hinit : (machine cfg).Initial (r.state (n + 1)) := ⟨r.state n, r.input n, hrst, rfl⟩
        exact absurd hsnp (by simp [(state_initial hinit).2.1])
      | true =>
        have hn : r.state (n + 1) = running cfg (r.state n) (r.input n) := step_running hrst
        rw [hn] at hsnp hown ⊢
        have hvalid : (r.input n).snoopValid = true := hsnp
        have hline : snpLine (running cfg (r.state n) (r.input n)) =
            lineOf (r.input n).snoopAddr := by simp [snpLine, running, hvalid]
        rw [hline] at hown
        exact ⟨hvalid, hown⟩
  request := by
    intro hsnp hne
    exact ⟨_, lastRequest_run n hne, (setsInv_run n).arrays.owner.req hsnp hne⟩

end Run

end Dcache
end SloPPC603
