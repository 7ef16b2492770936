import Mathlib.Algebra.Group.Nat.Defs
import Mathlib.Data.Nat.Log
import Mathlib.Data.List.Range
import SloPPC603.Clocked.Machine

/-!
# The instruction queue

The registers and clock edge of `ppc_iq.sv`, a shifting queue: on every edge each entry
takes itself, the entry one or two above it, or a word pushed.  Beside it stands the list
the queue is for.

* `Iq.step` — the clock edge.
* `contents` — the valid entries, in index order.
* `nextContents` — what an edge does to the list.
* `queue_is_list` — the queue is the list, in every run.
-/

namespace SloPPC603
namespace Iq

open Clocked

/-! ## The queue -/

/-- The module's parameters. -/
structure Config where
  width : ℕ := 32
  depth : ℕ := 6
  /-- The low bits a record write rewrites. -/
  recW : ℕ := 1
  /-- The bit a fold write sets. -/
  foldBit : ℕ := 0

/-- The inputs of one cycle. -/
structure Input (cfg : Config) where
  rstN : Bool := true
  clear : Bool := false
  flush : Bool := false
  pushValid : BitVec 2 := 0
  push0Data : BitVec cfg.width := 0
  push1Data : BitVec cfg.width := 0
  pushLane1 : Bool := false
  pop : BitVec 2 := 0
  recWrite : Bool := false
  record : BitVec cfg.recW := 0
  foldWrite : Bool := false

/-- The registers. -/
structure State (cfg : Config) where
  entries : ℕ → BitVec cfg.width
  count : ℕ

/-- `COUNT_WIDTH`. -/
def Config.countWidth (cfg : Config) : ℕ := Nat.clog 2 (cfg.depth + 1)

/-- A value in a register of `COUNT_WIDTH` bits. -/
def Config.wrap (cfg : Config) (n : ℕ) : ℕ := n % 2 ^ cfg.countWidth

/-- An entry with its record rewritten. -/
def Config.recorded (cfg : Config) (record : BitVec cfg.recW) (w : BitVec cfg.width) :
    BitVec cfg.width :=
  (w >>> cfg.recW <<< cfg.recW) ||| record.setWidth cfg.width

/-- An entry with its fold bit set. -/
def Config.folded (cfg : Config) (w : BitVec cfg.width) : BitVec cfg.width :=
  w ||| BitVec.twoPow cfg.width cfg.foldBit

section Signals

variable {cfg : Config} (s : State cfg) (i : Input cfg)

/-- `push_ready_o`. -/
def pushReady : Bool := !i.clear && decide (s.count < cfg.wrap cfg.depth)

/-- `push2_ready_o`. -/
def push2Ready : Bool := !i.clear && decide (s.count < cfg.wrap (cfg.depth - 1))

/-- `valid_o[0]`. -/
def valid0 : Bool := !i.clear && decide (s.count ≠ 0)

/-- `valid_o[1]`. -/
def valid1 : Bool := !i.clear && decide (1 < s.count)

/-- `marked_o`. -/
def marked : Bool :=
  (List.range cfg.depth).any fun j => decide (j < s.count) &&
    ((s.entries j).getLsbD (cfg.recW - 1) || (s.entries j).getLsbD (cfg.foldBit - 1))

/-- `push0`. -/
def push0 : Bool := i.pushValid.getLsbD 0 && pushReady s i

/-- `push1`. -/
def push1 : Bool := push0 s i && i.pushValid.getLsbD 1 && push2Ready s i

omit s in
/-- `first1`. -/
def first1 : Bool := i.pushLane1 && !i.pushValid.getLsbD 1

/-- `pop0`. -/
def pop0 : Bool := i.pop.getLsbD 0 && valid0 s i

/-- `pop1`. -/
def pop1 : Bool := pop0 s i && i.pop.getLsbD 1 && valid1 s i

/-- `survivors`. -/
def survivors : ℕ :=
  let once := cfg.wrap (s.count + 2 ^ cfg.countWidth - (pop0 s i).toNat)
  cfg.wrap (once + 2 ^ cfg.countWidth - (pop1 s i).toNat)

/-- What an entry is loaded with before the writes to the youngest survivor. -/
def moved (j : ℕ) : BitVec cfg.width :=
  if j < survivors s i then
    if pop1 s i then if j + 2 < cfg.depth then s.entries (j + 2) else s.entries j
    else if pop0 s i then if j + 1 < cfg.depth then s.entries (j + 1) else s.entries j
    else s.entries j
  else if j = survivors s i ∧ first1 i = false then i.push0Data
  else if j = cfg.wrap (survivors s i + (!first1 i).toNat) then i.push1Data
  else s.entries j

/-- `entries[j]` after an edge. -/
def nextEntry (j : ℕ) : BitVec cfg.width :=
  let youngest := decide (cfg.wrap (j + 1) = survivors s i)
  let recorded := if i.recWrite && youngest then cfg.recorded i.record (moved s i j) else moved s i j
  if i.foldWrite && youngest then cfg.folded recorded else recorded

/-- One clock edge.  The entries are not reset. -/
def step : State cfg where
  entries := fun j => if j < cfg.depth then nextEntry s i j else s.entries j
  count :=
    if !i.rstN || i.clear || i.flush then 0
    else cfg.wrap (survivors s i + (push0 s i).toNat + (push1 s i).toNat)

end Signals

/-- The queue as a clocked machine, started by an edge in reset. -/
def machine (cfg : Config) : Machine (State cfg) (Input cfg) where
  Initial := fun s => ∃ s₀ i, i.rstN = false ∧ s = step s₀ i
  step := step

/-! ## The list -/

/-- The valid entries, in index order. -/
def contents {cfg : Config} (s : State cfg) : List (BitVec cfg.width) :=
  (List.range s.count).map s.entries

section Lists

variable {cfg : Config} (es : List (BitVec cfg.width)) (i : Input cfg)

/-- The words accepted, in lane order; acceptance goes by what is there before the pops. -/
def accepted : List (BitVec cfg.width) :=
  if i.pushValid.getLsbD 0 ∧ es.length < cfg.depth then
    if i.pushValid.getLsbD 1 then
      if es.length < cfg.depth - 1 then [i.push0Data, i.push1Data] else [i.push0Data]
    else if i.pushLane1 then [i.push1Data] else [i.push0Data]
  else []

/-- The heads popped. -/
def popped : ℕ :=
  if i.pop.getLsbD 0 ∧ es ≠ [] then if i.pop.getLsbD 1 ∧ 1 < es.length then 2 else 1 else 0

omit es in
/-- The writes to an entry. -/
def written (w : BitVec cfg.width) : BitVec cfg.width :=
  let recorded := if i.recWrite then cfg.recorded i.record w else w
  if i.foldWrite then cfg.folded recorded else recorded

/-- The list after an edge: the heads popped are dropped, the youngest left is written, and
the words accepted are appended. -/
def nextContents : List (BitVec cfg.width) :=
  if !i.rstN || i.clear || i.flush then []
  else
    let left := es.drop (popped es i)
    left.modify (left.length - 1) (written i) ++ accepted es i

end Lists

section Contents

variable {cfg : Config} {s : State cfg} {i : Input cfg}

@[simp] theorem length_contents : (contents s).length = s.count := by
  simp [contents]

theorem getElem?_contents (j : ℕ) :
    (contents s)[j]? = if j < s.count then some (s.entries j) else none := by
  rw [contents, List.getElem?_map]
  split_ifs with h
  · rw [List.getElem?_range h, Option.map_some]
  · rw [List.getElem?_eq_none (by simpa using h), Option.map_none]

theorem contents_eq_nil : contents s = [] ↔ s.count = 0 := by
  rw [← List.length_eq_zero_iff, length_contents]

theorem depth_lt : cfg.depth < 2 ^ cfg.countWidth :=
  Nat.le_pow_clog (by omega) _

theorem wrap_of_le {n : ℕ} (h : n ≤ cfg.depth) : cfg.wrap n = n :=
  Nat.mod_eq_of_lt (Nat.lt_of_le_of_lt h depth_lt)

theorem wrap_sub {n k : ℕ} (h : n ≤ cfg.depth) (hk : k ≤ n) :
    cfg.wrap (n + 2 ^ cfg.countWidth - k) = n - k := by
  have hlt := @depth_lt cfg
  have heq : n + 2 ^ cfg.countWidth - k = n - k + 2 ^ cfg.countWidth := by omega
  rw [heq, Config.wrap, Nat.add_mod_right]
  exact Nat.mod_eq_of_lt (by omega)

/-! ## The list over an edge -/

section Edge

variable (hle : s.count ≤ cfg.depth) (hclear : i.clear = false)
include hclear

theorem pop0_iff : pop0 s i = true ↔ popped (contents s) i ≠ 0 := by
  simp only [pop0, valid0, popped, hclear, Bool.not_false, Bool.true_and, Bool.and_eq_true,
    decide_eq_true_eq, Ne, contents_eq_nil]
  split_ifs <;> simp_all

theorem pop1_iff : pop1 s i = true ↔ popped (contents s) i = 2 := by
  simp only [pop1, pop0, valid0, valid1, popped, hclear, Bool.not_false, Bool.true_and,
    Bool.and_eq_true, decide_eq_true_eq, Ne, contents_eq_nil, length_contents]
  split_ifs <;> simp_all

omit hclear in
theorem popped_le : popped (contents s) i ≤ s.count := by
  simp only [popped, Ne, contents_eq_nil, length_contents]
  split_ifs <;> omega

omit hclear in
theorem popped_le_two : popped (contents s) i ≤ 2 := by
  simp only [popped]
  split_ifs <;> omega

/-- What is accepted, by the signals. -/
theorem accepted_eq : accepted (contents s) i =
    (if push0 s i then [if first1 i then i.push1Data else i.push0Data] else []) ++
      if push1 s i then [i.push1Data] else [] := by
  have hd : cfg.wrap cfg.depth = cfg.depth := wrap_of_le le_rfl
  have hd1 : cfg.wrap (cfg.depth - 1) = cfg.depth - 1 := wrap_of_le (by omega)
  simp only [accepted, push0, push1, pushReady, push2Ready, first1, hclear, hd, hd1,
    length_contents, Bool.not_false, Bool.true_and, Bool.and_eq_true, decide_eq_true_eq,
    Bool.not_eq_true']
  split_ifs <;> simp_all

include hle

theorem survivors_eq : survivors s i = s.count - popped (contents s) i := by
  have hbound := @popped_le cfg s i
  have h0 := @pop0_iff cfg s i hclear
  have h1 := @pop1_iff cfg s i hclear
  have hmax := @popped_le_two cfg s i
  simp only [survivors]
  cases hp0 : pop0 s i with
  | false =>
    have hp1 : pop1 s i = false := by simp [pop1, hp0]
    rw [hp0] at h0
    have hkeep := wrap_sub hle (Nat.zero_le s.count)
    simp only [Nat.sub_zero] at hkeep
    simp only [hp1, Bool.toNat_false, Nat.sub_zero, hkeep]
    simp only [Bool.false_eq_true, false_iff, ne_eq, not_not] at h0
    omega
  | true =>
    have hne := h0.1 hp0
    rw [Bool.toNat_true, wrap_sub hle (by omega)]
    cases hp1 : pop1 s i with
    | false =>
      rw [hp1] at h1
      simp only [Bool.false_eq_true, false_iff] at h1
      rw [Bool.toNat_false, wrap_sub (by omega) (Nat.zero_le _)]
      omega
    | true =>
      have htwo := h1.1 hp1
      rw [Bool.toNat_true, wrap_sub (by omega) (by omega)]
      omega

/-- What is left in place, by index. -/
theorem getElem?_left (j : ℕ) :
    let left := (contents s).drop (popped (contents s) i)
    (left.modify (left.length - 1) (written i))[j]? =
      if j < survivors s i then some (nextEntry s i j) else none := by
  intro left
  have hsurv := survivors_eq hle hclear
  have hbound := @popped_le cfg s i
  have hlen : left.length = survivors s i := by simp [left, hsurv]
  rw [List.getElem?_modify, hlen]
  by_cases hj : j < survivors s i
  · have hmoved : left[j]? = some (moved s i j) := by
      have h0 := @pop0_iff cfg s i hclear
      have h1 := @pop1_iff cfg s i hclear
      rw [List.getElem?_drop, getElem?_contents, if_pos (by omega), moved, if_pos hj]
      split_ifs with hp1 hd hp0 hd
      · rw [h1.1 hp1, Nat.add_comm]
      · exact absurd (h1.1 hp1) (by omega)
      · have hone : popped (contents s) i = 1 := by
          have hne := h0.1 hp0
          have hne2 := mt h1.2 hp1
          have hmax := @popped_le_two cfg s i
          omega
        rw [hone, Nat.add_comm]
      · exact absurd (h0.1 hp0) (by omega)
      · have hzero : popped (contents s) i = 0 := by
          by_contra hne
          exact hp0 (h0.2 hne)
        rw [hzero, Nat.zero_add]
    have hwrap : cfg.wrap (j + 1) = j + 1 := wrap_of_le (by omega)
    rw [hmoved, if_pos hj, nextEntry, hwrap]
    by_cases hlast : survivors s i - 1 = j
    · have hyoungest : j + 1 = survivors s i := by omega
      simp [hlast, hyoungest, written]
    · have hyoungest : ¬ j + 1 = survivors s i := by omega
      simp [hlast, hyoungest]
  · rw [if_neg hj, List.getElem?_eq_none (by omega)]
    split_ifs <;> rfl

/-- There is room for what is pushed. -/
theorem room : survivors s i + (push0 s i).toNat + (push1 s i).toNat ≤ cfg.depth ∧
    (push1 s i = true → push0 s i = true ∧ first1 i = false) := by
  have hsurv := survivors_eq hle hclear
  have hd : cfg.wrap cfg.depth = cfg.depth := wrap_of_le le_rfl
  have hd1 : cfg.wrap (cfg.depth - 1) = cfg.depth - 1 := wrap_of_le (by omega)
  have h0 : push0 s i = true → s.count < cfg.depth := by
    simp only [push0, pushReady, hd, Bool.and_eq_true, decide_eq_true_eq]
    exact fun h => h.2.2
  have h1 : push1 s i = true → s.count < cfg.depth - 1 ∧ push0 s i = true ∧ first1 i = false := by
    simp only [push1, push2Ready, hd1, first1, Bool.and_eq_true, decide_eq_true_eq]
    rintro ⟨⟨hp, hv⟩, -, hlt⟩
    exact ⟨hlt, hp, by simp [hv]⟩
  refine ⟨?_, fun hp => (h1 hp).2⟩
  cases hp1 : push1 s i with
  | true =>
    obtain ⟨hlt, hp0, -⟩ := h1 hp1
    rw [hp0, Bool.toNat_true]
    omega
  | false =>
    cases hp0 : push0 s i with
    | true =>
      have hlt := h0 hp0
      rw [Bool.toNat_true, Bool.toNat_false]
      omega
    | false =>
      rw [Bool.toNat_false]
      omega

/-- What is pushed, by index. -/
theorem getElem?_accepted (k : ℕ) : (accepted (contents s) i)[k]? =
    if k < (push0 s i).toNat + (push1 s i).toNat then some (nextEntry s i (survivors s i + k))
    else none := by
  obtain ⟨hroom, hone⟩ := room hle hclear
  rw [accepted_eq hclear]
  -- a word pushed lies behind the survivors, where nothing else is written
  have hentry : k < (push0 s i).toNat + (push1 s i).toNat →
      nextEntry s i (survivors s i + k) = if k = 0 ∧ first1 i = false then i.push0Data
        else i.push1Data := by
    intro hk
    have hp0 : push0 s i = true := by
      by_contra hno
      have hp1 : push1 s i = false := by
        by_contra hp1
        exact hno (hone (by simpa using hp1)).1
      simp only [Bool.not_eq_true] at hno
      rw [hno, hp1] at hk
      exact Nat.not_lt_zero k hk
    rw [hp0, Bool.toNat_true] at hroom hk
    have hyoungest : cfg.wrap (survivors s i + k + 1) ≠ survivors s i := by
      rw [wrap_of_le (by omega)]
      omega
    have hsecond : cfg.wrap (survivors s i + (!first1 i).toNat) =
        survivors s i + (!first1 i).toNat := by
      have hle1 := Bool.toNat_le (!first1 i)
      exact wrap_of_le (by omega)
    have hplace : ¬ survivors s i + k < survivors s i := by omega
    have hmoved : nextEntry s i (survivors s i + k) = moved s i (survivors s i + k) := by
      simp [nextEntry, hyoungest]
    rw [hmoved, moved, if_neg hplace, hsecond]
    cases k with
    | zero => cases hf : first1 i <;> simp
    | succ k =>
      have hp1 : push1 s i = true := by
        by_contra hno
        rw [Bool.not_eq_true] at hno
        rw [hno, Bool.toNat_false] at hk
        omega
      rw [hp1, Bool.toNat_true] at hk
      obtain rfl : k = 0 := by omega
      simp [(hone hp1).2]
  by_cases hk : k < (push0 s i).toNat + (push1 s i).toNat
  · rw [if_pos hk, hentry hk]
    cases hp0 : push0 s i <;> cases hp1 : push1 s i <;> rw [hp0, hp1] at hk
    · cases hk
    · exact absurd (hone hp1).1 (by simp [hp0])
    · obtain rfl : k = 0 := by simpa using hk
      cases hf : first1 i <;> simp
    · have hfirst := (hone hp1).2
      have hk2 : k < 2 := hk
      obtain rfl | rfl : k = 0 ∨ k = 1 := by omega
      · simp [hfirst]
      · simp
  · rw [if_neg hk]
    apply List.getElem?_eq_none
    cases hp0 : push0 s i <;> cases hp1 : push1 s i <;> simp [hp0, hp1] at hk ⊢ <;> omega

/-- **An edge does to the queue what it does to the list.** -/
theorem contents_step (hrst : i.rstN = true) (hflush : i.flush = false) :
    contents (step s i) = nextContents (contents s) i ∧ (step s i).count ≤ cfg.depth := by
  have hsurv := survivors_eq hle hclear
  obtain ⟨hroom, -⟩ := room hle hclear
  have hcount : (step s i).count =
      survivors s i + (push0 s i).toNat + (push1 s i).toNat := by
    simp only [step, hrst, hclear, hflush, Bool.not_true, Bool.or_self, Bool.false_eq_true,
      if_false]
    exact wrap_of_le hroom
  refine ⟨?_, by omega⟩
  have hlen : ((contents s).drop (popped (contents s) i)).length = survivors s i := by
    simp [hsurv]
  have hnext : nextContents (contents s) i =
      ((contents s).drop (popped (contents s) i)).modify
        (((contents s).drop (popped (contents s) i)).length - 1) (written i) ++
          accepted (contents s) i := by
    simp [nextContents, hrst, hclear, hflush]
  rw [hnext]
  apply List.ext_getElem?
  intro j
  rw [getElem?_contents, hcount, List.getElem?_append, getElem?_left hle hclear,
    List.length_modify, hlen]
  have hentry : j < cfg.depth → (step s i).entries j = nextEntry s i j := fun hj => if_pos hj
  by_cases hj : j < survivors s i
  · rw [if_pos hj, if_pos (by omega), if_pos hj, hentry (by omega)]
  · rw [if_neg hj, getElem?_accepted hle hclear]
    have hsplit : survivors s i + (j - survivors s i) = j := by omega
    rw [hsplit]
    by_cases hpush : j - survivors s i < (push0 s i).toNat + (push1 s i).toNat
    · rw [if_pos hpush, if_pos (by omega), hentry (by omega)]
    · rw [if_neg hpush, if_neg (by omega)]

end Edge

end Contents

/-! ## Along a run -/

section Run

variable {cfg : Config}

/-- The queue over any edge. -/
theorem queue_step {s : State cfg} (i : Input cfg) (hle : s.count ≤ cfg.depth) :
    contents (step s i) = nextContents (contents s) i ∧ (step s i).count ≤ cfg.depth := by
  by_cases hempty : (!i.rstN || i.clear || i.flush) = true
  · have hcount : (step s i).count = 0 := if_pos hempty
    refine ⟨?_, by omega⟩
    rw [contents_eq_nil.2 hcount, nextContents, if_pos hempty]
  · simp only [Bool.or_eq_true, Bool.not_eq_true', not_or, Bool.not_eq_false,
      Bool.not_eq_true] at hempty
    exact contents_step hle hempty.1.2 hempty.1.1 hempty.2

/-- **The instruction queue is a list.**  In every run its valid entries, in index order,
are the list that starts empty and on each edge loses the heads popped, has its youngest
survivor written and gains the words accepted, in lane order; it never holds more than
`DEPTH`; and its outputs are read off that list. -/
theorem queue_is_list (r : Run (machine cfg)) (n : ℕ) :
    contents (r.state n) = r.history [] (fun es _ i => nextContents es i) n ∧
      (r.state n).count ≤ cfg.depth ∧ (contents (r.state n)).length = (r.state n).count ∧
      valid0 (r.state n) (r.input n) =
        (!(r.input n).clear && decide (0 < (contents (r.state n)).length)) ∧
      valid1 (r.state n) (r.input n) =
        (!(r.input n).clear && decide (1 < (contents (r.state n)).length)) ∧
      ∀ j < (contents (r.state n)).length,
        (contents (r.state n))[j]? = some ((r.state n).entries j) := by
  have hinv : contents (r.state n) = r.history [] (fun es _ i => nextContents es i) n ∧
      (r.state n).count ≤ cfg.depth := by
    induction n with
    | zero =>
      obtain ⟨s₀, i, hrst, heq⟩ := r.initial
      have hcount : (r.state 0).count = 0 := by
        rw [Run.state_zero, heq, step, hrst]
        rfl
      exact ⟨contents_eq_nil.2 hcount, by omega⟩
    | succ n ih =>
      obtain ⟨hlist, hle⟩ := queue_step (r.input n) ih.2
      refine ⟨?_, hle⟩
      rw [Run.state_succ, Run.history_succ, ← ih.1]
      exact hlist
  refine ⟨hinv.1, hinv.2, length_contents, ?_, ?_, ?_⟩
  · simp only [valid0, length_contents, Nat.pos_iff_ne_zero]
  · rw [valid1, length_contents]
  · intro j hj
    rw [getElem?_contents, if_pos (by simpa using hj)]

end Run

end Iq
end SloPPC603
