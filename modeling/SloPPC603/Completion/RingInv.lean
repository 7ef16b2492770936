import Mathlib.Tactic.IntervalCases
import SloPPC603.Clocked.Ring
import SloPPC603.Completion.Model

/-!
# The completion queue is a ring

`RingInv` says how the registers of the completion queue hold its entries: the
active slots are the `count` slots from the head on, the tail is the next free
slot, and the two look-ahead registers are the slots after head and tail.  It is
proved to survive every edge whose inputs obey `LegalInput`.

The argument turns on how far a cycle's retirement may reach into an accepted
recovery.  `retained_pos_of_retireFire` and `one_lt_retained_of_retire1Fire` say
a retiring entry is never one the recovery removes: a head or a pair that
settled on an earlier edge makes the recovery be refused, and one that finishes
on this edge is held back by the fixed-lane kill terms.  The edge then takes
`pops` entries from the front, keeps the first `kept` of the old ones and adds
`pushes` new ones, and `count`, `tail` and `active` all follow from that.
-/

namespace SloPPC603
namespace Completion

/-! ## Assumptions on the environment -/

/-- The rules the module asserts of its inputs, and the core's promise that the
head does not retire while its offer is held. -/
structure LegalInput (cfg : Config) (s : State) (i : Input) : Prop where
  /-- The machine is out of reset. -/
  running : i.rstN = true
  /-- Lane 1 allocates beside lane 0, unless it is alone at the tail. -/
  lane1 : i.alloc1Valid = true → i.alloc1AtTail = false → i.allocValid = true
  /-- Lane 0 does not allocate beside a lane 1 at the tail. -/
  atTail : i.alloc1AtTail = true → i.allocValid = false
  /-- A held head does not retire. -/
  hold : i.retireHold = true → retireFire cfg s i = false

/-! ## The invariant -/

/-- How the registers hold the queue. -/
structure RingInv (s : State) : Prop where
  head_lt : s.head < cqDepth
  count_le : s.count ≤ cqDepth
  tail_eq : s.tail = Ring.offset cqDepth s.head s.count
  head1_eq : s.head1 = Ring.next cqDepth s.head
  tail1_eq : s.tail1 = Ring.next cqDepth s.tail
  active_iff : ∀ slot < cqDepth, s.active slot = true ↔ Ring.age cqDepth slot s.head < s.count

theorem ringInv_resetState : RingInv resetState where
  head_lt := by decide
  count_le := by decide
  tail_eq := by decide
  head1_eq := by decide
  tail1_eq := by decide
  active_iff := by simp [resetState]

/-! ## The source's ring arithmetic on reachable slots -/

theorem nextIndex_eq {k : ℕ} (hk : k < cqDepth) : nextIndex k = Ring.next cqDepth k := by
  simp only [cqDepth] at hk
  interval_cases k <;> rfl

theorem ringOffset_eq {k d : ℕ} (hk : k < cqDepth) (hd : d ≤ cqDepth) :
    ringOffset k d = Ring.offset cqDepth k d := by
  simp only [cqDepth] at hk hd
  interval_cases k <;> interval_cases d <;> rfl

theorem ringAge_eq {k h : ℕ} (hk : k < cqDepth) (hh : h < cqDepth) :
    ringAge k h = Ring.age cqDepth k h := by
  simp only [cqDepth] at hk hh
  interval_cases k <;> interval_cases h <;> rfl

namespace RingInv

variable {s : State} (hs : RingInv s)
include hs

theorem head1_eq_offset : s.head1 = Ring.offset cqDepth s.head 1 := by
  rw [hs.head1_eq, Ring.next_eq_offset hs.head_lt]

theorem head1_lt : s.head1 < cqDepth := by
  rw [hs.head1_eq]
  exact Ring.next_lt hs.head_lt

theorem tail_lt : s.tail < cqDepth := by
  rw [hs.tail_eq]
  exact Ring.offset_lt hs.head_lt hs.count_le

theorem tail1_lt : s.tail1 < cqDepth := by
  rw [hs.tail1_eq]
  exact Ring.next_lt hs.tail_lt

theorem age_head1 : Ring.age cqDepth s.head1 s.head = 1 := by
  rw [hs.head1_eq_offset]
  exact Ring.age_offset hs.head_lt (by decide)

theorem active_head (h : s.count ≠ 0) : s.active s.head = true :=
  (hs.active_iff _ hs.head_lt).2 (by rw [Ring.age_self]; omega)

theorem active_head1 (h : 1 < s.count) : s.active s.head1 = true :=
  (hs.active_iff _ hs.head1_lt).2 (by rw [hs.age_head1]; omega)

end RingInv

/-! ## What an accepted recovery keeps -/

section Recovery

variable {cfg : Config} {s : State} {i : Input}

theorem pivot_of_enable (hcfg : cfg.enablePivotRecovery = true) : cfg.pivot = true := by
  simp [Config.pivot, hcfg]

theorem retained_eq (hcfg : cfg.enablePivotRecovery = true) :
    retained cfg s i = pivotRetained cfg s i := by
  simp [retained, pivot_of_enable hcfg]

theorem redirectAccepted_iff (hcfg : cfg.enablePivotRecovery = true) :
    redirectAccepted cfg s i = true ↔
      i.redirectValid = true ∧ (i.redirectAll = true ∨ pivotHit cfg s i = true) ∧
        headIrrevocable cfg s i = false ∧ head1Irrevocable cfg s i = false := by
  simp [redirectAccepted, redirectFound, pivot_of_enable hcfg, and_assoc]

/-- A pivot that hits names an active slot of the queue. -/
theorem pivotHit_spec (h : pivotHit cfg s i = true) :
    i.redirectAll = false ∧ i.redirectPivot.index < cqDepth ∧ pivotAge s i < s.count ∧
      s.active i.redirectPivot.index = true ∧
      i.redirectPivot.generation = s.generations i.redirectPivot.index := by
  simp only [pivotHit, pivotOwnerMatch, Bool.and_eq_true, Bool.not_eq_true', decide_eq_true_eq]
    at h
  tauto

/-- The retained entries are a prefix of the queue. -/
theorem retained_le : retained cfg s i ≤ s.count := by
  unfold retained pivotRetained
  split_ifs with hpivot hall hhit
  · exact Nat.zero_le _
  · have hage := (pivotHit_spec hhit).2.2.1
    have hk : i.redirectKeepPivot.toNat ≤ 1 := Bool.toNat_le _
    omega
  · exact le_rfl
  · exact Nat.zero_le _

/-- An accepted recovery removes the entries of the queue from the `retained`th
on. -/
theorem redirectKill_iff (hs : RingInv s) {slot : ℕ} (hslot : slot < cqDepth) :
    redirectKill cfg s i slot = true ↔ redirectAccepted cfg s i = true ∧
      retained cfg s i ≤ Ring.age cqDepth slot s.head ∧
        Ring.age cqDepth slot s.head < s.count := by
  unfold redirectKill redirectCandidateKill
  by_cases hpivot : cfg.pivot = true
  · simp only [if_pos hpivot, ringAge_eq hslot hs.head_lt, Bool.and_eq_true, decide_eq_true_eq]
    tauto
  · have hzero : retained cfg s i = 0 := by rw [retained, if_neg hpivot]
    simp only [if_neg hpivot, hzero, Bool.and_eq_true, hs.active_iff slot hslot, zero_le,
      true_and]

/-- When a recovery is accepted the retained count is exact: everything goes,
or the pivot's age counts what is older than it. -/
theorem retained_cases (hcfg : cfg.enablePivotRecovery = true) (hs : RingInv s)
    (h : redirectAccepted cfg s i = true) :
    i.redirectAll = true ∧ retained cfg s i = 0 ∨
      i.redirectAll = false ∧ pivotHit cfg s i = true ∧
        retained cfg s i =
          Ring.age cqDepth i.redirectPivot.index s.head + i.redirectKeepPivot.toNat := by
  obtain ⟨-, hfound, -⟩ := (redirectAccepted_iff hcfg).1 h
  rw [retained_eq hcfg, pivotRetained]
  cases hall : i.redirectAll with
  | true => exact Or.inl ⟨rfl, by simp⟩
  | false =>
    have hhit : pivotHit cfg s i = true := by simpa [hall] using hfound
    obtain ⟨-, hidx, hage, -⟩ := pivotHit_spec hhit
    have hle := hs.count_le
    have hk : i.redirectKeepPivot.toNat ≤ 1 := Bool.toNat_le _
    refine Or.inr ⟨rfl, hhit, ?_⟩
    rw [pivotAge, ringAge_eq hidx hs.head_lt] at hage
    simp only [hhit, if_true, Bool.false_eq_true, if_false, pivotAge,
      ringAge_eq hidx hs.head_lt]
    simp only [cqDepth] at *
    omega

/-- A pivot of age zero is the head. -/
theorem pivotAtHead_of_age (hs : RingInv s) (hhit : pivotHit cfg s i = true)
    (hage : Ring.age cqDepth i.redirectPivot.index s.head = 0) :
    i.redirectPivot.index = s.head ∧ pivotAtHead s i = true := by
  obtain ⟨-, hidx, hlt, hact, hgen⟩ := pivotHit_spec hhit
  have hpos : (0 : ℕ) < cqDepth := by decide
  have heq : i.redirectPivot.index = s.head := by
    rw [(Ring.age_eq_iff hidx hs.head_lt hpos).1 hage, Ring.offset_zero hs.head_lt]
  have hcount : s.count ≠ 0 := by omega
  rw [heq] at hact hgen
  exact ⟨heq, by simp [pivotAtHead, hcount, hact, heq, hgen]⟩

/-- A pivot of age one is CQ[1]. -/
theorem pivotAtHead1_of_age (hs : RingInv s) (hhit : pivotHit cfg s i = true)
    (hage : Ring.age cqDepth i.redirectPivot.index s.head = 1) :
    pivotAtHead1 s i = true := by
  obtain ⟨-, hidx, hlt, hact, hgen⟩ := pivotHit_spec hhit
  have heq : i.redirectPivot.index = s.head1 := by
    rw [(Ring.age_eq_iff hidx hs.head_lt (by decide)).1 hage, hs.head1_eq_offset]
  have hcount : 1 < s.count := by
    rw [pivotAge, ringAge_eq hidx hs.head_lt, hage] at hlt
    exact hlt
  rw [heq] at hact hgen
  simp [pivotAtHead1, hcount, hact, heq, hgen]

/-- An accepted recovery that keeps nothing removes the head, whether the head
has finished or is finishing on this edge. -/
theorem killHead_of_retained_zero (hcfg : cfg.enablePivotRecovery = true) (hs : RingInv s)
    (h : redirectAccepted cfg s i = true) (hcount : s.count ≠ 0)
    (hzero : retained cfg s i = 0) :
    killHead cfg s i = true ∧ pendingHeadKill cfg s i = true := by
  have hvalid := ((redirectAccepted_iff hcfg).1 h).1
  rcases retained_cases hcfg hs h with ⟨hall, -⟩ | ⟨-, hhit, heq⟩
  · exact ⟨by simp [killHead, hcount, hall], by simp [pendingHeadKill, hvalid, hall]⟩
  · have hage : Ring.age cqDepth i.redirectPivot.index s.head = 0 := by omega
    have hkeep : i.redirectKeepPivot = false := by
      cases hk : i.redirectKeepPivot <;> simp_all
    obtain ⟨hidx, hpiv⟩ := pivotAtHead_of_age hs hhit hage
    have hgen := (pivotHit_spec hhit).2.2.2.2
    have hact := (pivotHit_spec hhit).2.2.2.1
    rw [hidx] at hgen hact
    exact ⟨by simp [killHead, hcount, pivot_of_enable hcfg, hkeep, hidx, hact, hgen],
      by simp [pendingHeadKill, hvalid, hpiv, hkeep]⟩

/-- **A retiring head is one an accepted recovery keeps.** -/
theorem retained_pos_of_retireFire (hcfg : cfg.enablePivotRecovery = true) (hs : RingInv s)
    (hi : LegalInput cfg s i) (h : redirectAccepted cfg s i = true)
    (hfire : retireFire cfg s i = true) : 0 < retained cfg s i := by
  by_contra hzero
  have hrv : retireValid cfg s i = true := by
    simp only [retireFire, Bool.and_eq_true] at hfire
    exact hfire.1
  have hcount : s.count ≠ 0 := by
    intro hc
    simp [retireValid, retireSettled, hc] at hrv
  obtain ⟨hkill, hpend⟩ := killHead_of_retained_zero hcfg hs h hcount (by omega)
  have hhold : i.retireHold = false := by
    cases hh : i.retireHold with
    | false => rfl
    | true => rw [hi.hold hh] at hfire; cases hfire
  -- a settled head would have had the recovery refused
  have hdone : s.done s.head = false := by
    have hirr := ((redirectAccepted_iff hcfg).1 h).2.2.1
    cases hd : s.done s.head with
    | false => rfl
    | true => simp [headIrrevocable, hcfg, hcount, hs.head_lt, hhold, hd, hkill] at hirr
  simp [retireValid, retireSettled, hdone, headNow0, headNow1, headNow2, hpend] at hrv

/-- A retiring CQ[1] retires beside the head, and the queue holds both. -/
theorem retire1Fire_spec (h : retire1Fire cfg s i = true) :
    retireFire cfg s i = true ∧ retire1Valid cfg s i = true ∧ i.retire1Ready = true ∧
      1 < s.count := by
  simp only [retire1Fire, Bool.and_eq_true] at h
  obtain ⟨⟨hfire, hvalid⟩, hready⟩ := h
  refine ⟨hfire, hvalid, hready, ?_⟩
  simp only [retire1Valid, Bool.and_eq_true, decide_eq_true_eq] at hvalid
  exact hvalid.1.1.1.2

/-- **A retiring CQ[1] is one an accepted recovery keeps.** -/
theorem one_lt_retained_of_retire1Fire (hcfg : cfg.enablePivotRecovery = true) (hs : RingInv s)
    (hi : LegalInput cfg s i) (h : redirectAccepted cfg s i = true)
    (hfire1 : retire1Fire cfg s i = true) : 1 < retained cfg s i := by
  by_contra hle
  obtain ⟨hfire, hvalid, hready, hcount⟩ := retire1Fire_spec hfire1
  have hpos := retained_pos_of_retireFire hcfg hs hi h hfire
  have hone : retained cfg s i = 1 := by omega
  have hhold : i.retireHold = false := by
    cases hh : i.retireHold with
    | false => rfl
    | true => rw [hi.hold hh] at hfire; cases hfire
  obtain ⟨hrv, -, hirr, hirr1⟩ := (redirectAccepted_iff hcfg).1 h
  have hact := hs.active_head1 hcount
  -- the recovery removes CQ[1], so its stored finish does not let it retire
  have hcand : redirectKill cfg s i s.head1 = true := by
    simp [redirectKill, h, redirectCandidateKill, pivot_of_enable hcfg,
      ringAge_eq hs.head1_lt hs.head_lt, hs.age_head1, hcount, hone]
  have hkill1 : killHead1 cfg s i = true := by
    have hpiv : pivotRetained cfg s i = 1 := by rw [← retained_eq hcfg, hone]
    simp [killHead1, hcount, hpiv]
  simp only [retire1Valid, hcand, Bool.not_true, Bool.and_false, Bool.false_or,
    Bool.and_eq_true] at hvalid
  obtain ⟨⟨⟨⟨⟨hpair, -⟩, -⟩, -⟩, hnow⟩, hok⟩ := hvalid
  -- a finish on this edge is held back unless the head's own settled offer refused the recovery
  have hpend : s.done s.head1 = false ∧ pendingHead1Kill cfg s i = false := by
    simp only [head1Now0, head1Now1, head1Now2, head1ResultMatch, pendingHead1, Bool.or_eq_true,
      Bool.and_eq_true, Bool.not_eq_true'] at hnow
    tauto
  have hterm : i.redirectAll = true ∨ pivotAtHead s i = true ∨
      (pivotAtHead1 s i = true ∧ i.redirectKeepPivot = false) := by
    rcases retained_cases hcfg hs h with ⟨hall, -⟩ | ⟨-, hhit, heq⟩
    · exact Or.inl hall
    · rcases Nat.eq_zero_or_pos (Ring.age cqDepth i.redirectPivot.index s.head) with h0 | h1
      · exact Or.inr (Or.inl (pivotAtHead_of_age hs hhit h0).2)
      · have hkeep : i.redirectKeepPivot = false := by
          cases hk : i.redirectKeepPivot with
          | false => rfl
          | true => rw [hk] at heq; simp only [Bool.toNat_true] at heq; omega
        rw [hkeep] at heq
        simp only [Bool.toNat_false] at heq
        exact Or.inr (Or.inr ⟨pivotAtHead1_of_age hs hhit (by omega), hkeep⟩)
  have hprot : headRecoveryProtected cfg s i = true ∧ pendingHeadKill cfg s i = true := by
    have hp := hpend.2
    simp only [pendingHead1Kill, hrv, Bool.true_and] at hp
    rcases hterm with ht | ht | ⟨ht, hk⟩ <;> simp_all
  have hnz : s.count ≠ 0 := by omega
  have hkill : killHead cfg s i = true := by
    have hp := hprot.2
    simp only [pendingHeadKill, hrv, pivot_of_enable hcfg, Bool.not_true, Bool.false_or,
      Bool.true_and, Bool.or_eq_true, Bool.and_eq_true, Bool.not_eq_true', pivotAtHead] at hp
    rcases hp with hp | ⟨⟨⟨⟨-, ha⟩, hx⟩, hg⟩, hk⟩
    · simp [killHead, hnz, hp]
    · simp_all [killHead, pivot_of_enable hcfg]
  have hd := hprot.1
  simp only [headRecoveryProtected, Bool.and_eq_true] at hd
  simp [headIrrevocable, hcfg, hnz, hs.head_lt, hhold, hd.2, hkill] at hirr

end Recovery

/-! ## What one edge does to the queue -/

section Edge

variable (cfg : Config) (s : State) (i : Input)

/-- The entries that retire on this edge. -/
def pops : ℕ := (retireFire cfg s i).toNat + (retire1Fire cfg s i).toNat

/-- The entries a recovery leaves; all of them when none is accepted. -/
def kept : ℕ := if redirectAccepted cfg s i then retained cfg s i else s.count

/-- The entries allocated on this edge. -/
def pushes : ℕ := (allocFire cfg s i).toNat + (alloc1Fire cfg s i).toNat

variable {cfg s i}

theorem kept_le : kept cfg s i ≤ s.count := by
  unfold kept
  split_ifs
  · exact retained_le
  · exact le_rfl

theorem retireFire_count (h : retireFire cfg s i = true) : s.count ≠ 0 := by
  intro hc
  simp [retireFire, retireValid, retireSettled, hc] at h

theorem retireFire_of_retire1Fire (h : retire1Fire cfg s i = true) :
    retireFire cfg s i = true := (retire1Fire_spec h).1

/-- Retirement never reaches past what the recovery keeps. -/
theorem pops_le_kept (hcfg : cfg.enablePivotRecovery = true) (hs : RingInv s)
    (hi : LegalInput cfg s i) : pops cfg s i ≤ kept cfg s i := by
  unfold pops kept
  cases h1 : retire1Fire cfg s i with
  | true =>
    obtain ⟨hfire, -, -, hcount⟩ := retire1Fire_spec h1
    simp only [hfire, Bool.toNat_true]
    split_ifs with hacc
    · exact one_lt_retained_of_retire1Fire hcfg hs hi hacc h1
    · omega
  | false =>
    cases hfire : retireFire cfg s i with
    | true =>
      have hcount := retireFire_count hfire
      simp only [Bool.toNat_true, Bool.toNat_false]
      split_ifs with hacc
      · exact retained_pos_of_retireFire hcfg hs hi hacc hfire
      · omega
    | false => simp

/-- The recoveries a build may request that does not protect an offered head
itself: removing the whole queue on an edge without a retirement, or keeping the
pivot. -/
structure LegalRecovery (cfg : Config) (s : State) (i : Input) : Prop where
  /-- Without pivots every recovery removes the whole queue. -/
  whole : cfg.pivot = false → i.redirectValid = true → i.redirectAll = true
  /-- Nothing retires beside a recovery of the whole queue. -/
  all : cfg.enablePivotRecovery = false → i.redirectValid = true → i.redirectAll = true →
    retireFire cfg s i = false
  /-- A branch keeps itself. -/
  branch : cfg.enablePivotRecovery = false → i.redirectValid = true → i.redirectAll = false →
    i.redirectKeepPivot = true

/-- A recovery that keeps a branch at the head lets no pair retire. -/
theorem retire1Fire_of_pivotAtHead (hcfg : cfg.enablePivotRecovery = false) (hs : RingInv s)
    (hacc : redirectAccepted cfg s i = true) (hone : retained cfg s i ≤ 1)
    (hpiv : pivotAtHead s i = true) : retire1Fire cfg s i = false := by
  by_contra hne
  have hf1 : retire1Fire cfg s i = true := by simpa using hne
  obtain ⟨-, hvalid, -, hcount⟩ := retire1Fire_spec hf1
  have hkill : redirectKill cfg s i s.head1 = true := by
    rw [redirectKill_iff hs hs.head1_lt, hs.age_head1]
    exact ⟨hacc, hone, hcount⟩
  have hvr : i.redirectValid = true := by
    simp only [redirectAccepted, Bool.and_eq_true] at hacc
    exact hacc.1.1.1
  have hpend : pendingHead1Kill cfg s i = true := by
    simp [pendingHead1Kill, hvr, hpiv, headRecoveryProtected, hcfg]
  simp [retire1Valid, hkill, head1Now0, head1Now1, head1Now2, hpend] at hvalid

/-- **Retirement never reaches past what a legal recovery keeps**, in any
build. -/
theorem pops_le_kept_of_legal (hs : RingInv s) (hi : LegalInput cfg s i)
    (hr : LegalRecovery cfg s i) : pops cfg s i ≤ kept cfg s i := by
  by_cases hcfg : cfg.enablePivotRecovery = true
  · exact pops_le_kept hcfg hs hi
  rw [Bool.not_eq_true] at hcfg
  have hle : retireFire cfg s i = true → pops cfg s i ≤ s.count := by
    intro hf
    have hcount := retireFire_count hf
    unfold pops
    cases hf1 : retire1Fire cfg s i with
    | false => simp only [hf, Bool.toNat_true, Bool.toNat_false]; omega
    | true =>
      have h2 := (retire1Fire_spec hf1).2.2.2
      simp only [hf, Bool.toNat_true]
      omega
  cases hf : retireFire cfg s i with
  | false =>
    have hf1 : retire1Fire cfg s i = false := by simp [retire1Fire, hf]
    simp [pops, hf, hf1]
  | true =>
    by_cases hacc : redirectAccepted cfg s i = true
    · have hvr : i.redirectValid = true := by
        simp only [redirectAccepted, Bool.and_eq_true] at hacc
        exact hacc.1.1.1
      have hall : i.redirectAll = false := by
        by_contra hne
        have hoff := hr.all hcfg hvr (by simpa using hne)
        rw [hf] at hoff
        cases hoff
      have hpivot : cfg.pivot = true := by
        by_contra hne
        have hw := hr.whole (by simpa using hne) hvr
        rw [hall] at hw
        cases hw
      have hkeep := hr.branch hcfg hvr hall
      have hhit : pivotHit cfg s i = true := by
        simp only [redirectAccepted, redirectFound, hpivot, hall, Bool.and_eq_true, if_true,
          Bool.false_or] at hacc
        exact hacc.1.1.2
      obtain ⟨-, hidx, hage, -⟩ := pivotHit_spec hhit
      have hcount := hs.count_le
      have hret : retained cfg s i =
          Ring.age cqDepth i.redirectPivot.index s.head + 1 := by
        rw [pivotAge, ringAge_eq hidx hs.head_lt] at hage
        simp only [retained, hpivot, if_true, pivotRetained, hall, hhit, hkeep, pivotAge,
          ringAge_eq hidx hs.head_lt, Bool.toNat_true, Bool.false_eq_true, if_false]
        simp only [cqDepth] at *
        omega
      rw [kept, if_pos hacc, hret, pops, hf]
      rcases Nat.eq_zero_or_pos (Ring.age cqDepth i.redirectPivot.index s.head) with h0 | hpos
      · have hf1 := retire1Fire_of_pivotAtHead hcfg hs hacc (by omega)
          (pivotAtHead_of_age hs hhit h0).2
        simp [hf1]
      · have hb := Bool.toNat_le (retire1Fire cfg s i)
        simp only [Bool.toNat_true]
        omega
    · rw [kept, if_neg hacc]
      exact hle hf

/-- An accepted recovery and an allocation never share an edge. -/
theorem pushes_of_accepted (h : redirectAccepted cfg s i = true) : pushes cfg s i = 0 := by
  simp [pushes, allocFire, allocReady, alloc1Fire, alloc1Ready, h]

/-- Lane 0 allocates into a free slot. -/
theorem allocCount_lt (h : allocFire cfg s i = true) : s.count < cqDepth := by
  simp only [allocFire, allocReady, Bool.and_eq_true, decide_eq_true_eq] at h
  exact h.2.2

/-- So does lane 1, behind lane 0. -/
theorem alloc1Count_lt (hi : LegalInput cfg s i) (h : alloc1Fire cfg s i = true) :
    s.count + (allocFire cfg s i).toNat < cqDepth := by
  simp only [alloc1Fire, alloc1Ready, Bool.and_eq_true, decide_eq_true_eq] at h
  obtain ⟨-, -, hroom⟩ := h
  cases hp : i.alloc1AtTail with
  | true =>
    -- the slot at the tail is free for lane 1, as lane 0 asks for nothing
    have h0 : allocFire cfg s i = false := by simp [allocFire, hi.atTail hp]
    rw [hp, if_pos rfl] at hroom
    rw [h0]
    exact hroom
  | false =>
    have hb := Bool.toNat_le (allocFire cfg s i)
    rw [hp, if_neg Bool.false_ne_true] at hroom
    omega

/-- Allocation never overfills the ring. -/
theorem kept_add_pushes_le (hs : RingInv s)
    (hi : LegalInput cfg s i) : kept cfg s i + pushes cfg s i ≤ cqDepth := by
  have hle := hs.count_le
  cases hacc : redirectAccepted cfg s i with
  | true =>
    have hk : kept cfg s i ≤ s.count := kept_le
    rw [pushes_of_accepted hacc]
    omega
  | false =>
    have hkept : kept cfg s i = s.count := by simp [kept, hacc]
    rw [hkept, pushes]
    cases h1 : alloc1Fire cfg s i with
    | true =>
      have hroom := alloc1Count_lt hi h1
      rw [Bool.toNat_true]
      omega
    | false =>
      cases h0 : allocFire cfg s i with
      | true =>
        have hroom := allocCount_lt h0
        rw [Bool.toNat_true, Bool.toNat_false]
        omega
      | false => simpa using hle

variable (hpop : pops cfg s i ≤ kept cfg s i) (hs : RingInv s) (hi : LegalInput cfg s i)
include hpop hs hi

theorem nextCount_eq : nextCount cfg s i = kept cfg s i + pushes cfg s i - pops cfg s i := by
  have hfull := kept_add_pushes_le hs hi
  unfold nextCount
  cases hacc : redirectAccepted cfg s i with
  | true =>
    have hpush := pushes_of_accepted hacc
    have hkept : kept cfg s i = retained cfg s i := by simp [kept, hacc]
    simp only [if_true]
    unfold pops cqDepth at *
    omega
  | false =>
    have hkept : kept cfg s i = s.count := by simp [kept, hacc]
    simp only [Bool.false_eq_true, if_false]
    unfold pops pushes cqDepth at *
    omega

omit hpop hi in
theorem nextHead_eq : nextHead cfg s i = Ring.offset cqDepth s.head (pops cfg s i) := by
  have h1 := hs.head1_eq_offset
  have hlt := hs.head1_lt
  unfold nextHead pops
  cases hf1 : retire1Fire cfg s i with
  | true =>
    simp only [if_true, retireFire_of_retire1Fire hf1, Bool.toNat_true]
    rw [nextIndex_eq hlt, h1, Ring.offset_succ hs.head_lt (by decide)]
  | false =>
    cases hf : retireFire cfg s i with
    | true => simpa using h1
    | false => simp [Ring.offset_zero hs.head_lt]

omit hpop hi in
theorem nextHead1_eq : nextHead1 cfg s i = Ring.next cqDepth (nextHead cfg s i) := by
  have hlt := hs.head1_lt
  have hlt' := Ring.next_lt hlt
  unfold nextHead1 nextHead
  split_ifs
  · rw [nextIndex_eq hlt, nextIndex_eq hlt']
  · rw [nextIndex_eq hlt]
  · exact hs.head1_eq

omit hpop in
theorem alloc1Index_eq (h : alloc1Fire cfg s i = true) : (alloc1Tag s i).index =
    Ring.offset cqDepth s.head (s.count + (allocFire cfg s i).toNat) := by
  cases hp : i.alloc1AtTail with
  | true =>
    have h0 : allocFire cfg s i = false := by simp [allocFire, hi.atTail hp]
    simp [alloc1Tag, hp, h0, hs.tail_eq]
  | false =>
    have h0 : allocFire cfg s i = true := by
      simp only [alloc1Fire, hp, Bool.or_false, Bool.and_eq_true] at h
      exact h.1.1
    have hroom := alloc1Count_lt hi h
    rw [h0, Bool.toNat_true] at hroom
    simp only [alloc1Tag, hp, h0, Bool.toNat_true, Bool.false_eq_true, if_false]
    rw [hs.tail1_eq, hs.tail_eq, Ring.offset_succ hs.head_lt (by omega)]

omit hpop in
theorem nextTail_eq : nextTail cfg s i =
    Ring.offset cqDepth s.head (kept cfg s i + pushes cfg s i) := by
  have hfull := kept_add_pushes_le hs hi
  unfold nextTail
  cases hacc : redirectAccepted cfg s i with
  | true =>
    have hkept : kept cfg s i = retained cfg s i := by simp [kept, hacc]
    rw [pushes_of_accepted hacc] at hfull ⊢
    rw [if_pos rfl, redirectCandidateTail, ← hkept, Nat.add_zero, ringOffset_eq hs.head_lt (by omega)]
  | false =>
    have hkept : kept cfg s i = s.count := by simp [kept, hacc]
    rw [hkept] at hfull ⊢
    simp only [Bool.false_eq_true, if_false]
    cases h1 : alloc1Fire cfg s i with
    | false =>
      cases h0 : allocFire cfg s i with
      | false => simp [pushes, h0, h1, hs.tail_eq]
      | true =>
        simp only [pushes, h0, h1, Bool.toNat_true, Bool.toNat_false] at hfull ⊢
        simp only [Bool.false_and, Bool.or_false, Bool.false_eq_true, if_false, if_true]
        rw [hs.tail1_eq, hs.tail_eq, Ring.offset_succ hs.head_lt (by omega)]
    | true =>
      cases hp : i.alloc1AtTail with
      | true =>
        have h0 : allocFire cfg s i = false := by simp [allocFire, hi.atTail hp]
        simp only [pushes, h0, h1, Bool.toNat_true, Bool.toNat_false] at hfull ⊢
        simp only [Bool.not_true, Bool.and_false, Bool.false_eq_true, if_false, Bool.false_or,
          if_true]
        rw [hs.tail1_eq, hs.tail_eq, Ring.offset_succ hs.head_lt (by omega)]
      | false =>
        have h0 : allocFire cfg s i = true := by
          simp only [alloc1Fire, hp, Bool.or_false, Bool.and_eq_true] at h1
          exact h1.1.1
        simp only [pushes, h0, h1, Bool.toNat_true] at hfull ⊢
        simp only [Bool.not_false, Bool.and_true, if_true]
        rw [nextIndex_eq hs.tail1_lt, hs.tail1_eq, hs.tail_eq,
          Ring.offset_succ hs.head_lt (by omega), Ring.offset_succ hs.head_lt (by omega)]

omit hpop hi in
theorem nextTail1_eq : nextTail1 cfg s i = Ring.next cqDepth (nextTail cfg s i) := by
  have hlt := hs.tail1_lt
  have hlt' := Ring.next_lt hlt
  have hcand : redirectCandidateTail cfg s i < cqDepth := by
    have hr : retained cfg s i ≤ s.count := retained_le
    have hc := hs.count_le
    rw [redirectCandidateTail, ringOffset_eq hs.head_lt (by omega)]
    exact Ring.offset_lt hs.head_lt (by omega)
  unfold nextTail1 nextTail
  split_ifs
  · rw [nextIndex_eq hcand]
  · rw [nextIndex_eq hlt, nextIndex_eq hlt']
  · rw [nextIndex_eq hlt]
  · exact hs.tail1_eq

omit hpop hi in
/-- An old slot survives the edge's retirement when it is not among the oldest
`pops`. -/
theorem afterRetire_active {slot : ℕ} (hslot : slot < cqDepth) :
    afterRetire cfg s i s.active slot = true ↔
      pops cfg s i ≤ Ring.age cqDepth slot s.head ∧ Ring.age cqDepth slot s.head < s.count := by
  have h0 : slot = s.head ↔ Ring.age cqDepth slot s.head = 0 := by
    rw [Ring.age_eq_iff hslot hs.head_lt (by decide), Ring.offset_zero hs.head_lt]
  have h1 : slot = s.head1 ↔ Ring.age cqDepth slot s.head = 1 := by
    rw [Ring.age_eq_iff hslot hs.head_lt (by decide), hs.head1_eq_offset]
  have himp : retire1Fire cfg s i = true → retireFire cfg s i = true :=
    retireFire_of_retire1Fire
  simp only [afterRetire, Bool.and_eq_true, Bool.not_eq_true', Bool.and_eq_false_iff,
    decide_eq_false_iff_not, hs.active_iff slot hslot, h0, h1, pops]
  cases hf1 : retire1Fire cfg s i with
  | true =>
    rw [himp hf1, Bool.toNat_true]
    simp only [Bool.true_eq_false, false_or]
    omega
  | false =>
    cases hf : retireFire cfg s i with
    | true =>
      simp only [Bool.true_eq_false, false_or, true_or, and_true, Bool.toNat_true,
        Bool.toNat_false]
      omega
    | false =>
      simp only [true_or, and_true, Bool.toNat_false]
      omega

omit hpop in
/-- The slots allocated on this edge are the `pushes` places behind the queue. -/
theorem allocated_iff {slot : ℕ} (hslot : slot < cqDepth) :
    (alloc1Fire cfg s i = true ∧ slot = (alloc1Tag s i).index ∨
      allocFire cfg s i = true ∧ slot = s.tail) ↔
    s.count ≤ Ring.age cqDepth slot s.head ∧
      Ring.age cqDepth slot s.head < s.count + pushes cfg s i := by
  have hidx0 : allocFire cfg s i = true →
      (slot = s.tail ↔ Ring.age cqDepth slot s.head = s.count) := by
    intro h0
    rw [Ring.age_eq_iff hslot hs.head_lt (allocCount_lt h0), hs.tail_eq]
  have hidx1 : alloc1Fire cfg s i = true → (slot = (alloc1Tag s i).index ↔
      Ring.age cqDepth slot s.head = s.count + (allocFire cfg s i).toNat) := by
    intro h1
    rw [Ring.age_eq_iff hslot hs.head_lt (alloc1Count_lt hi h1), alloc1Index_eq hs hi h1]
  rw [pushes]
  cases h0 : allocFire cfg s i with
  | true =>
    rw [h0] at hidx1
    cases h1 : alloc1Fire cfg s i with
    | true =>
      rw [hidx0 h0, hidx1 h1, Bool.toNat_true]
      simp only [true_and]
      omega
    | false =>
      rw [hidx0 h0, Bool.toNat_true, Bool.toNat_false]
      simp only [Bool.false_eq_true, false_and, true_and, false_or]
      omega
  | false =>
    rw [h0] at hidx1
    cases h1 : alloc1Fire cfg s i with
    | true =>
      rw [hidx1 h1, Bool.toNat_true, Bool.toNat_false]
      simp only [Bool.false_eq_true, false_and, true_and, or_false]
      omega
    | false =>
      simp only [Bool.false_eq_true, false_and, or_false, Bool.toNat_false, false_iff]
      omega

theorem nextActive_iff {slot : ℕ} (hslot : slot < cqDepth) : nextActive cfg s i slot = true ↔
    pops cfg s i ≤ Ring.age cqDepth slot s.head ∧
      Ring.age cqDepth slot s.head < kept cfg s i + pushes cfg s i := by
  have hold := @afterRetire_active cfg s i hs slot hslot
  unfold nextActive
  cases hacc : redirectAccepted cfg s i with
  | true =>
    have hkept : kept cfg s i = retained cfg s i := by simp [kept, hacc]
    have hle : retained cfg s i ≤ s.count := retained_le
    rw [pushes_of_accepted hacc, hkept]
    simp only [if_true, redirectKill_iff hs hslot, hacc, true_and]
    split_ifs with hkill
    · simp only [false_iff]
      omega
    · rw [hold]
      omega
  | false =>
    have hkept : kept cfg s i = s.count := by simp [kept, hacc]
    have hfresh := allocated_iff hs hi hslot
    rw [hkept] at hpop ⊢
    rw [if_neg Bool.false_ne_true]
    split_ifs with h1 h0
    · obtain ⟨hge, hlt⟩ := hfresh.1 (Or.inl h1)
      exact iff_of_true rfl ⟨hpop.trans hge, hlt⟩
    · obtain ⟨hge, hlt⟩ := hfresh.1 (Or.inr h0)
      exact iff_of_true rfl ⟨hpop.trans hge, hlt⟩
    · have hno := mt hfresh.2 (not_or.2 ⟨h1, h0⟩)
      rw [hold]
      omega

/-- **The ring invariant survives every legal edge.** -/
theorem ringInv_step : RingInv (step cfg s i) := by
  have hfull := kept_add_pushes_le hs hi
  have hkept : kept cfg s i ≤ s.count := kept_le
  have hcount := hs.count_le
  have hhead : nextHead cfg s i = Ring.offset cqDepth s.head (pops cfg s i) := nextHead_eq hs
  have hheadlt : nextHead cfg s i < cqDepth := by
    rw [hhead]
    exact Ring.offset_lt hs.head_lt (by omega)
  rw [step, if_pos hi.running]
  refine ⟨hheadlt, ?_, ?_, nextHead1_eq hs, nextTail1_eq hs, ?_⟩
  · show nextCount cfg s i ≤ cqDepth
    rw [nextCount_eq hpop hs hi]
    omega
  · show nextTail cfg s i = Ring.offset cqDepth (nextHead cfg s i) (nextCount cfg s i)
    rw [nextCount_eq hpop hs hi, nextTail_eq hs hi, hhead,
      Ring.offset_offset hs.head_lt (by omega)]
    congr 1
    omega
  · intro slot hslot
    show nextActive cfg s i slot = true ↔
      Ring.age cqDepth slot (nextHead cfg s i) < nextCount cfg s i
    rw [nextActive_iff hpop hs hi hslot, nextCount_eq hpop hs hi, hhead]
    have hage : Ring.age cqDepth slot s.head < cqDepth := Ring.age_lt hslot
    rcases Nat.lt_or_ge (Ring.age cqDepth slot s.head) (pops cfg s i) with hlt | hge
    · rw [Ring.age_offset_head_of_lt hslot hs.head_lt hlt (by omega)]
      omega
    · rw [Ring.age_offset_head hslot hs.head_lt hge]
      omega

end Edge

end Completion
end SloPPC603
