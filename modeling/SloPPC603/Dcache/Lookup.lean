import Mathlib.Data.List.Basic
import Mathlib.Data.Nat.Bitwise
import SloPPC603.Dcache.Model

/-!
# The registered lookup

The tag and state arrays are read a cycle early into registers, with the edge's
own writes bypassed.  `LookupInv` says those registers are what the arrays hold
at the read set, and `OwnerInv` that the read set and tag are those of the
cycle's owner: the registered snoop, else the operation in progress.  Both are
assertions of the source, and both survive every edge.

* `validAt`, `dirtyAt`, `holds` — the line state an array index stands for.
* `hway_eq`, `hit_iff`, `hdirty_iff` — what the or-ed hit vector says when a line
  is in one way at most.
* `lookupInv_step`, `ownerInv_step` — the two assertions.
-/

namespace SloPPC603
namespace Dcache

/-! ## Lines -/

variable {cfg : Config}

theorem setCount_pos : 0 < cfg.setCount := Nat.pow_pos (by decide)

theorem setOf_lt (line : ℕ) : cfg.setOf line < cfg.setCount := Nat.mod_lt _ setCount_pos

@[simp] theorem lineAt_tagOf_setOf (line : ℕ) :
    cfg.lineAt (cfg.tagOf line) (cfg.setOf line) = line := Nat.div_add_mod' line cfg.setCount

/-- A line is its set and its tag. -/
theorem line_eq_iff {a b : ℕ} :
    a = b ↔ cfg.setOf a = cfg.setOf b ∧ cfg.tagOf a = cfg.tagOf b := by
  constructor
  · rintro rfl
    exact ⟨rfl, rfl⟩
  · rintro ⟨hset, htag⟩
    rw [← @lineAt_tagOf_setOf cfg a, hset, htag, lineAt_tagOf_setOf]

theorem setOf_lineAt {t set : ℕ} (h : set < cfg.setCount) : cfg.setOf (cfg.lineAt t set) = set := by
  rw [Config.setOf, Config.lineAt, Nat.mul_add_mod_self_right, Nat.mod_eq_of_lt h]

theorem tagOf_lineAt {t set : ℕ} (h : set < cfg.setCount) : cfg.tagOf (cfg.lineAt t set) = t := by
  rw [Config.tagOf, Config.lineAt, Nat.mul_comm, Nat.mul_add_div setCount_pos,
    Nat.div_eq_of_lt h, Nat.add_zero]

/-! ## Line state in the arrays -/

/-- The way's state word at a set says valid. -/
def validAt (s : State) (set w : ℕ) : Bool := s.setValid set && s.stValid set w

/-- The way's state word at a set says valid and modified. -/
def dirtyAt (s : State) (set w : ℕ) : Bool := validAt s set w && s.stDirty set w

/-- The way holds the line. -/
def holds (cfg : Config) (s : State) (w line : ℕ) : Prop :=
  validAt s (cfg.setOf line) w = true ∧ s.tagRam w (cfg.setOf line) = cfg.tagOf line

/-- The way holds the line, modified. -/
def holdsDirty (cfg : Config) (s : State) (w line : ℕ) : Prop :=
  holds cfg s w line ∧ s.stDirty (cfg.setOf line) w = true

/-- A line is in one way at most. -/
def Unique (cfg : Config) (s : State) : Prop :=
  ∀ line, ∀ w < cfg.wayCount, ∀ w' < cfg.wayCount,
    holds cfg s w line → holds cfg s w' line → w = w'

/-! ## The hit vector -/

section HitVector

variable {s : State}

theorem hit_iff : hit cfg s = true ↔ ∃ w < cfg.wayCount, s.hitw w = true := by
  simp [hit, List.any_eq_true, List.mem_range]

theorem hdirty_iff : hdirty cfg s = true ↔
    ∃ w < cfg.wayCount, s.hitw w = true ∧ s.drt w = true := by
  simp [hdirty, List.any_eq_true, List.mem_range]

/-- Or-ing together the numbers of the set ways of a list that sets one at most. -/
theorem foldl_lor_eq {p : ℕ → Bool} {l : List ℕ} {w acc : ℕ} (hp : ∀ v ∈ l, p v = true → v = w) :
    l.foldl (fun acc v => if p v then acc ||| v else acc) acc =
      if ∃ v ∈ l, p v = true then acc ||| w else acc := by
  induction l generalizing acc with
  | nil => simp
  | cons v l ih =>
    have hv := hp v (List.mem_cons_self ..)
    have hl : ∀ u ∈ l, p u = true → u = w := fun u hu => hp u (List.mem_cons_of_mem _ hu)
    rw [List.foldl_cons, ih hl]
    cases hpv : p v with
    | true =>
      obtain rfl := hv hpv
      simp [hpv]
    | false => simp [hpv]

/-- With one way hitting at most, `hway` is its number. -/
theorem hway_eq {w : ℕ} (hw : w < cfg.wayCount) (hhit : s.hitw w = true)
    (huniq : ∀ v < cfg.wayCount, s.hitw v = true → v = w) : hway cfg s = w := by
  unfold hway
  rw [foldl_lor_eq (w := w) (fun v hv => huniq v (List.mem_range.1 hv)),
    if_pos ⟨w, List.mem_range.2 hw, hhit⟩, Nat.zero_or]

end HitVector

/-! ## The registers are the arrays -/

/-- The registered lookup is what the arrays hold at the read set. -/
structure LookupInv (s : State) : Prop where
  vld : ∀ w, s.vld w = validAt s s.rdSet w
  drt : ∀ w, s.drt w = dirtyAt s s.rdSet w
  tag : ∀ w, s.tag w = s.tagRam w s.rdSet
  hitw : ∀ w, s.hitw w = true ↔ validAt s s.rdSet w = true ∧ s.tagRam w s.rdSet = s.rdTag

/-- The read set and tag belong to the registered snoop, else to the operation
in progress. -/
structure OwnerInv (cfg : Config) (s : State) : Prop where
  snoop : s.snpValid = true →
    s.rdSet = cfg.setOf (snpLine s) ∧ s.rdTag = cfg.tagOf (snpLine s)
  req : s.snpValid = false → s.state ≠ .idle → s.rdSet = reqSet cfg s ∧ s.rdTag = reqTag cfg s

section Step

variable {s : State} {i : Input}

theorem step_running (h : i.rstN = true) : step cfg s i = running cfg s i := by
  rw [step, if_pos h]

/-- The line state after an edge, in terms of the edge's one state write. -/
theorem validAt_running (set w : ℕ) : validAt (running cfg s i) set w =
    (!flash s i && if stWe cfg s i ∧ set = stWaddr cfg s then stWvalid cfg s i w
      else validAt s set w) := by
  show (nextSetValid cfg s i set && nextStValid cfg s i set w) = _
  unfold nextSetValid nextStValid validAt
  cases flash s i with
  | true => simp
  | false =>
    simp only [Bool.false_eq_true, if_false, Bool.not_false, Bool.true_and]
    split_ifs <;> simp

theorem stDirty_running (set w : ℕ) : (running cfg s i).stDirty set w =
    if stWe cfg s i ∧ set = stWaddr cfg s then stWdirty cfg s i w else s.stDirty set w := rfl

theorem tagRam_running (w set : ℕ) : (running cfg s i).tagRam w set =
    if installGo s ∧ w = s.way ∧ set = reqSet cfg s then reqTag cfg s else s.tagRam w set := rfl

theorem svNext_eq (hrst : i.rstN = true) (set : ℕ) :
    running.svNext cfg s i set = nextSetValid cfg s i set := by
  unfold running.svNext nextSetValid
  by_cases heq : set = stWaddr cfg s
  · subst heq
    cases flash s i <;> cases stWe cfg s i <;> simp [hrst]
  · have hne : stWaddr cfg s ≠ set := fun h => heq h.symm
    cases flash s i <;> cases stWe cfg s i <;> simp [hrst, heq, hne]

/-- **The lookup registers follow the arrays.** -/
theorem lookupInv_step (hrst : i.rstN = true) : LookupInv (running cfg s i) where
  vld w := by
    show (running.svNext cfg s i _ && _) = (nextSetValid cfg s i _ && _)
    rw [svNext_eq hrst]
    rfl
  drt w := by
    show (running.svNext cfg s i _ && _ && _) = (nextSetValid cfg s i _ && _ && _)
    rw [svNext_eq hrst]
    rfl
  tag w := rfl
  hitw w := by
    show (running.svNext cfg s i _ && _ && decide _) = true ↔ (nextSetValid cfg s i _ && _) = true ∧ _
    rw [svNext_eq hrst, Bool.and_eq_true, decide_eq_true_eq]
    rfl

/-! ## Fast answers are lookups -/

/-- A fast load hit is a lookup that reads, with no step to take. -/
theorem lkFast_spec (h : lkFast cfg s i = true) :
    lkGo cfg s i = true ∧ lkAnswers cfg s i = false ∧ (lk cfg s i).read = true ∧
      (lk cfg s i).stWe = false ∧ (lk cfg s i).plan = .none := by
  simp only [lkFast, Bool.and_eq_true, decide_eq_true_eq, Bool.not_eq_true']
    at h
  obtain ⟨⟨⟨⟨⟨⟨⟨⟨⟨⟨hfast, hst⟩, hop⟩, hdce⟩, hi⟩, hhit⟩, hearly⟩, hsnp⟩, htea⟩, hpush⟩, hline⟩ := h
  have hlk : lk cfg s i =
      { lkDefault cfg s with read := true, lruWe := true, hitEvt := true } := by
    simp [lk, lkTea, htea, lkPlanCob, lkAllocate, lkOp, hop, lkLoad, cacheable, hfast, hdce, hi,
      hhit, lkDefault, Plan.none]
  have hstall : lkStall cfg s i = false := by
    simp [lkStall, hlk, hsnp, hpush, hline, lkDefault]
  refine ⟨by simp [lkGo, hst, hstall], ?_, by rw [hlk], by rw [hlk]; rfl, by rw [hlk]; rfl⟩
  simp [lkAnswers, hlk, lkDefault]

/-- A fast store hit is a lookup that plans its store. -/
theorem lkFastSt_spec (h : lkFastSt cfg s i = true) :
    lkGo cfg s i = true ∧ lkAnswers cfg s i = false ∧
      lk cfg s i = { lkModify cfg s (lkDefault cfg s) with
        plan := { store := true }, hitEvt := true } := by
  simp only [lkFastSt, Bool.and_eq_true, decide_eq_true_eq, Bool.not_eq_true'] at h
  obtain ⟨⟨⟨⟨⟨⟨⟨⟨hfast, hst⟩, hop⟩, hcache⟩, hw⟩, hhit⟩, hsnp⟩, hpush⟩, hline⟩ := h
  have htea : teaBlocksLoad s i = false := by simp [teaBlocksLoad, hop]
  have hlk : lk cfg s i = { lkModify cfg s (lkDefault cfg s) with
      plan := { store := true }, hitEvt := true } := by
    simp [lk, lkTea, htea, lkPlanCob, lkAllocate, lkOp, hop, lkStore, hcache, hw, hhit, lkDefault,
      lkModify]
  have hstall : lkStall cfg s i = false := by
    simp [lkStall, hlk, hsnp, hpush, hline, lkDefault, lkModify]
  refine ⟨by simp [lkGo, hst, hstall], ?_, hlk⟩
  simp [lkAnswers, hlk, lkDefault, lkModify, Plan.none]

/-- After a cycle that was ready for a request the machine is in its lookup if it
took one and idle if not. -/
theorem nextState_of_reqReady (h : reqReady cfg s i = true) :
    nextState cfg s i = if reqAccept cfg s i then .lookup else .idle := by
  simp only [reqReady, Bool.and_eq_true, Bool.or_eq_true, decide_eq_true_eq] at h
  rcases h.2 with (⟨hidle, -⟩ | hfast) | hfast
  · simp [nextState, stepDone, hidle]
  · have hdone := hfast
    simp only [lkFastDone, Bool.and_eq_true] at hfast
    obtain ⟨hgo, hans, -⟩ := lkFast_spec hfast.1
    have hst : s.state = .lookup := by
      simp only [lkGo, Bool.and_eq_true, decide_eq_true_eq] at hgo
      exact hgo.1
    simp [nextState, stepDone, hst, hgo, afterLookup, hans, hdone]
  · simp only [lkFastStNext, Bool.and_eq_true] at hfast
    have hdone := hfast.1
    simp only [lkFastStDone, Bool.and_eq_true] at hdone
    obtain ⟨hgo, hans, -⟩ := lkFastSt_spec hdone.1
    have hst : s.state = .lookup := by
      simp only [lkGo, Bool.and_eq_true, decide_eq_true_eq] at hgo
      exact hgo.1
    simp [nextState, stepDone, hst, hgo, afterLookup, hans, hfast.1]

/-- A cycle that was not ready leaves an idle machine idle. -/
theorem not_reqAccept_of_not_ready (h : reqReady cfg s i = false) :
    reqAccept cfg s i = false := by simp [reqAccept, h]

/-- **The lookup reads its owner's address.** -/
theorem ownerInv_step (hrst : i.rstN = true) : OwnerInv cfg (running cfg s i) where
  snoop hsnp := by
    have hv : i.snoopValid = true := hsnp
    show cfg.setOf (rdLine cfg s i) = _ ∧ cfg.tagOf (rdLine cfg s i) = _
    have hline : rdLine cfg s i = snpLine (running cfg s i) := by
      simp [rdLine, hrst, hv, snpLine, running]
    rw [hline]
    exact ⟨rfl, rfl⟩
  req hsnp hne := by
    have hv : i.snoopValid = false := hsnp
    have hline : rdLine cfg s i = reqLine (running cfg s i) := by
      cases hready : reqReady cfg s i with
      | true =>
        have hacc : reqAccept cfg s i = true := by
          cases ha : reqAccept cfg s i with
          | true => rfl
          | false =>
            have hidle := nextState_of_reqReady hready
            rw [ha, if_neg (by simp)] at hidle
            exact absurd hidle hne
        simp [rdLine, hv, hready, reqLine, running, hacc]
      | false =>
        have hacc := not_reqAccept_of_not_ready hready
        simp [rdLine, hv, hready, reqLine, running, hacc]
    show cfg.setOf (rdLine cfg s i) = _ ∧ cfg.tagOf (rdLine cfg s i) = _
    rw [hline]
    exact ⟨rfl, rfl⟩

end Step

end Dcache
end SloPPC603
