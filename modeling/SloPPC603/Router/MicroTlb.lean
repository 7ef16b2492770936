import Mathlib.Algebra.Group.Nat.Defs
import SloPPC603.Pkg

/-!
# The micro-TLB

The registers, lookups and clock edge of `ppc_micro_tlb.sv`: a small fully
associative cache of permitted page translations for one side of the router.  It
has two to the power `indexW` entries.

* `hit`, `hitRpn`, `checkHit` — the lookups.
* `Inv`, `inv_step` — a page is held once at most, so a hit's payload is one entry's.
* `hit_entry` — the entry behind a hit.
* `valid_step` — what is valid after an edge was valid before or is being filled.
-/

namespace SloPPC603
namespace MicroTlb

/-! ## Entries and registers -/

/-- The module's parameters. -/
structure Config where
  indexW : ℕ
  projected : Bool

/-- `ENTRIES`. -/
def Config.entries (cfg : Config) : ℕ := 2 ^ cfg.indexW

/-- The code of an `esa_enable_t`. -/
def esaCode : EsaEnable → BitVec 2
  | .denied => 0
  | .allowed => 1
  | .poBase => 2
  | .poSer => 3

/-- The `esa_enable_t` of a code. -/
def ofEsaCode (code : BitVec 2) : EsaEnable :=
  if code = 0 then .denied else if code = 1 then .allowed else if code = 2 then .poBase else .poSer

/-- What an entry holds, which is also what a fill brings. -/
structure Entry where
  page : BitVec 20
  rpn : BitVec 20
  wimg : BitVec 4
  esa : EsaEnable
  /-- The TLB set its fill named. -/
  set : ℕ
  writeOk : Bool
  fromTlb : Bool
  deriving DecidableEq, Repr, Inhabited

/-- `dtlb_projection_t`: page comparisons made before the address is selected. -/
structure Projection where
  useLookup : Bool := false
  source : BitVec 2 := 0
  page : BitVec 2 → BitVec 20 := fun _ => 0

/-- The registers. -/
structure State where
  valid : ℕ → Bool
  entry : ℕ → Entry
  next : ℕ

/-- The inputs that the clock edge reads. -/
structure Input where
  rstN : Bool := true
  flush : Bool := false
  setFlush : Bool := false
  setFlushIndex : ℕ := 0
  fill : Bool := false
  fillEntry : Entry := default

section Signals

variable (cfg : Config) (s : State)

/-! ## Lookups -/

/-- An entry holds the page: `legacy_match`, `fill_match` and the check's match. -/
def holds (page : BitVec 20) (i : ℕ) : Bool := s.valid i && (s.entry i).page = page

/-- `match`. -/
def matched (page : BitVec 20) (p : Projection) (i : ℕ) : Bool :=
  if cfg.projected && p.useLookup then holds s (p.page p.source) i else holds s page i

/-- `hit_o`. -/
def hit (page : BitVec 20) (write : Bool) (p : Projection) : Bool :=
  (List.range cfg.entries).any fun i =>
    matched cfg s page p i && (!write || (s.entry i).writeOk)

/-- The payload is an OR of the matching entries'. -/
def hitRpn (page : BitVec 20) (p : Projection) : BitVec 20 :=
  (List.range cfg.entries).foldl
    (fun acc i => acc ||| if matched cfg s page p i then (s.entry i).rpn else 0) 0

/-- `hit_wimg_o`. -/
def hitWimg (page : BitVec 20) (p : Projection) : BitVec 4 :=
  (List.range cfg.entries).foldl
    (fun acc i => acc ||| if matched cfg s page p i then (s.entry i).wimg else 0) 0

/-- `hit_esa_o`. -/
def hitEsa (page : BitVec 20) (p : Projection) : EsaEnable :=
  ofEsaCode ((List.range cfg.entries).foldl
    (fun acc i => acc ||| if matched cfg s page p i then esaCode (s.entry i).esa else 0) 0)

/-- `check_hit_o`: a store to the page would hit. -/
def checkHit (page : BitVec 20) : Bool :=
  (List.range cfg.entries).any fun i => holds s page i && (s.entry i).writeOk

/-! ## Fills -/

/-- The entry that holds the page to fill. -/
def fillMatch (page : BitVec 20) : Option ℕ := (List.range cfg.entries).find? (holds s page)

/-- `victim`: the entry holding the page, else an invalid one, else the next in
turn. -/
def victim (page : BitVec 20) : ℕ :=
  match fillMatch cfg s page with
  | some i => i
  | none => ((List.range cfg.entries).find? fun i => !s.valid i).getD s.next

/-! ## The clock edge -/

/-- One clock edge; the payload is not reset. -/
def step (i : Input) : State where
  valid := fun k =>
    if !i.rstN || i.flush then false
    else if i.fill && k = victim cfg s i.fillEntry.page then true
    else s.valid k && !(i.setFlush && (s.entry k).fromTlb && (s.entry k).set = i.setFlushIndex)
  entry := fun k =>
    if i.fill && k = victim cfg s i.fillEntry.page then i.fillEntry else s.entry k
  next :=
    if !i.rstN then 0
    else if i.fill && (fillMatch cfg s i.fillEntry.page).isNone &&
        victim cfg s i.fillEntry.page = s.next then (s.next + 1) % cfg.entries
    else s.next

end Signals

/-! ## A page is held once -/

/-- No two entries hold one page, and the next victim is an entry. -/
structure Inv (cfg : Config) (s : State) : Prop where
  next_lt : s.next < cfg.entries
  unique : ∀ j k, j < cfg.entries → k < cfg.entries → s.valid j = true → s.valid k = true →
    (s.entry j).page = (s.entry k).page → j = k

section Proof

variable {cfg : Config} {s : State} {i : Input}

theorem entries_pos : 0 < cfg.entries := Nat.two_pow_pos _

theorem holds_iff {page : BitVec 20} {k : ℕ} :
    holds s page k = true ↔ s.valid k = true ∧ (s.entry k).page = page := by
  simp [holds]

/-- The entry that holds the page. -/
theorem fillMatch_some {page : BitVec 20} {k : ℕ} (h : fillMatch cfg s page = some k) :
    k < cfg.entries ∧ holds s page k = true :=
  ⟨List.mem_range.1 (List.mem_of_find?_eq_some h), List.find?_some h⟩

theorem fillMatch_none {page : BitVec 20} (h : fillMatch cfg s page = none) {k : ℕ}
    (hk : k < cfg.entries) : holds s page k = false := by
  have hnone := List.find?_eq_none.1 h k (List.mem_range.2 hk)
  simpa using hnone

/-- An entry that holds the page is the victim. -/
theorem eq_victim_of_holds (h : Inv cfg s) {page : BitVec 20} {k : ℕ} (hk : k < cfg.entries)
    (hold : holds s page k = true) : k = victim cfg s page := by
  unfold victim
  split
  · rename_i j hj
    obtain ⟨hjlt, hjhold⟩ := fillMatch_some hj
    obtain ⟨hkv, hkp⟩ := holds_iff.1 hold
    obtain ⟨hjv, hjp⟩ := holds_iff.1 hjhold
    exact h.unique k j hk hjlt hkv hjv (hkp.trans hjp.symm)
  · rename_i hnone
    rw [fillMatch_none hnone hk] at hold
    cases hold

/-- What an entry valid after an edge was before it. -/
theorem valid_step {k : ℕ} (h : (step cfg s i).valid k = true) :
    i.rstN = true ∧ i.flush = false ∧
      ((i.fill = true ∧ k = victim cfg s i.fillEntry.page ∧
          (step cfg s i).entry k = i.fillEntry) ∨
        ((i.fill = true → k ≠ victim cfg s i.fillEntry.page) ∧ s.valid k = true ∧
          (step cfg s i).entry k = s.entry k ∧
          (i.setFlush = true → (s.entry k).fromTlb = true →
            (s.entry k).set ≠ i.setFlushIndex))) := by
  simp only [step] at h ⊢
  split_ifs at h with hclear hfilled
  · -- filled on this edge
    simp only [Bool.or_eq_true, Bool.not_eq_true', not_or, Bool.not_eq_true,
      Bool.not_eq_false] at hclear
    simp only [Bool.and_eq_true, decide_eq_true_eq] at hfilled
    exact ⟨hclear.1, hclear.2, Or.inl ⟨hfilled.1, hfilled.2, by simp [hfilled]⟩⟩
  · -- kept from before
    simp only [Bool.or_eq_true, Bool.not_eq_true', not_or, Bool.not_eq_true,
      Bool.not_eq_false] at hclear
    have hno : (i.fill && decide (k = victim cfg s i.fillEntry.page)) = false := by
      simpa using hfilled
    simp only [Bool.and_eq_true, Bool.not_eq_true', Bool.and_eq_false_iff,
      decide_eq_false_iff_not] at h
    refine ⟨hclear.1, hclear.2, Or.inr ⟨?_, h.1, by simp [hno], ?_⟩⟩
    · intro hf hk
      exact hfilled (by simp [hf, hk])
    · intro hset htlb hidx
      rcases h.2 with (hx | hx) | hx
      · rw [hset] at hx
        cases hx
      · rw [htlb] at hx
        cases hx
      · exact hx hidx

theorem inv_reset (hrst : i.rstN = false) : Inv cfg (step cfg s i) where
  next_lt := by simp [step, hrst, entries_pos]
  unique := by
    intro j k _ _ hj
    simp [step, hrst] at hj

/-- **A page is held once**, over an edge. -/
theorem inv_step (h : Inv cfg s) : Inv cfg (step cfg s i) where
  next_lt := by
    simp only [step]
    split_ifs
    · exact entries_pos
    · exact Nat.mod_lt _ entries_pos
    · exact h.next_lt
  unique := by
    intro j k hj hk hvj hvk hpage
    obtain ⟨-, -, hfj | ⟨hnej, holdj, hej, -⟩⟩ := valid_step hvj
    · obtain ⟨-, -, hfk | ⟨hnek, holdk, hek, -⟩⟩ := valid_step hvk
      · rw [hfj.2.1, hfk.2.1]
      · rw [hfj.2.2, hek] at hpage
        exact absurd (eq_victim_of_holds h hk (holds_iff.2 ⟨holdk, hpage.symm⟩)) (hnek hfj.1)
    · obtain ⟨-, -, hfk | ⟨hnek, holdk, hek, -⟩⟩ := valid_step hvk
      · rw [hfk.2.2, hej] at hpage
        exact absurd (eq_victim_of_holds h hj (holds_iff.2 ⟨holdj, hpage⟩)) (hnej hfk.1)
      · rw [hej, hek] at hpage
        exact h.unique j k hj hk holdj holdk hpage

/-! ## What a hit shows -/

/-- The OR of a payload over the matches is the payload of the only match. -/
theorem foldl_or_unique {w n k : ℕ} {p : ℕ → Bool} {f : ℕ → BitVec w} (hk : k < n)
    (hp : p k = true) (huniq : ∀ j < n, p j = true → j = k) :
    (List.range n).foldl (fun acc i => acc ||| if p i then f i else 0) 0 = f k := by
  have hzero : ∀ m ≤ k,
      (List.range m).foldl (fun acc i => acc ||| if p i then f i else 0#w) 0#w = 0#w := by
    intro m hm
    induction m with
    | zero => rfl
    | succ m ih =>
      have hno : p m = false := by
        rw [← Bool.not_eq_true]
        intro hpm
        exact absurd (huniq m (by omega) hpm) (by omega)
      simp [List.range_succ, ih (by omega), hno]
  have hfrom : ∀ m, k < m → m ≤ n →
      (List.range m).foldl (fun acc i => acc ||| if p i then f i else 0#w) 0#w = f k := by
    intro m hkm hm
    induction m with
    | zero => omega
    | succ m ih =>
      rw [List.range_succ, List.foldl_append]
      by_cases heq : m = k
      · simp [heq, hzero k le_rfl, hp]
      · have hno : p m = false := by
          rw [← Bool.not_eq_true]
          exact fun hpm => heq (huniq m (by omega) hpm)
        simp [ih (by omega) (by omega), hno]
  exact hfrom n hk le_rfl

/-- The page a lookup compares: the projected one when the projection is used. -/
def lookupPage (cfg : Config) (page : BitVec 20) (p : Projection) : BitVec 20 :=
  if cfg.projected && p.useLookup then p.page p.source else page

theorem matched_eq {page : BitVec 20} {p : Projection} {k : ℕ} :
    matched cfg s page p k = holds s (lookupPage cfg page p) k := by
  unfold matched lookupPage
  split <;> rfl

/-- **A hit is one entry's**: it holds the page looked up, allows the access, and its
payload is what the lookup shows. -/
theorem hit_entry (h : Inv cfg s) {page : BitVec 20} {write : Bool} {p : Projection}
    (hhit : hit cfg s page write p = true) : ∃ k < cfg.entries, s.valid k = true ∧
      (s.entry k).page = lookupPage cfg page p ∧ (write = true → (s.entry k).writeOk = true) ∧
      hitRpn cfg s page p = (s.entry k).rpn ∧ hitWimg cfg s page p = (s.entry k).wimg ∧
      hitEsa cfg s page p = (s.entry k).esa := by
  simp only [hit, List.any_eq_true, List.mem_range, matched_eq, Bool.and_eq_true, Bool.or_eq_true,
    Bool.not_eq_true'] at hhit
  obtain ⟨k, hk, hold, hwrite⟩ := hhit
  obtain ⟨hv, hpage⟩ := holds_iff.1 hold
  have huniq : ∀ j < cfg.entries, matched cfg s page p j = true → j = k := by
    intro j hj hm
    rw [matched_eq] at hm
    obtain ⟨hvj, hpj⟩ := holds_iff.1 hm
    exact h.unique j k hj hk hvj hv (hpj.trans hpage.symm)
  have hmatch : matched cfg s page p k = true := by rw [matched_eq, hold]
  refine ⟨k, hk, hv, hpage, ?_, foldl_or_unique hk hmatch huniq, foldl_or_unique hk hmatch huniq, ?_⟩
  · intro hw
    simpa [hw] using hwrite
  · rw [hitEsa, foldl_or_unique hk hmatch huniq]
    cases (s.entry k).esa <;> rfl

/-- The entry behind a store check. -/
theorem checkHit_entry {page : BitVec 20} (h : checkHit cfg s page = true) :
    ∃ k < cfg.entries, s.valid k = true ∧ (s.entry k).page = page ∧
      (s.entry k).writeOk = true := by
  simp only [checkHit, List.any_eq_true, List.mem_range, Bool.and_eq_true] at h
  obtain ⟨k, hk, hold, hw⟩ := h
  obtain ⟨hv, hpage⟩ := holds_iff.1 hold
  exact ⟨k, hk, hv, hpage, hw⟩

end Proof

end MicroTlb
end SloPPC603
