import SloPPC603.Integer.Unit

/-!
# The reservation station

The registers and clock edge of `ppc_dispatch.sv`, a one-entry reservation station.  An
operand that is not ready waits for its producer, and takes its value from whichever of the
wakes, the integer unit, the load/store unit and the second forward port has it first.

* `Station.step` — the clock edge.
* `operandEdge` — what an edge does to an operand that stays.
* `Surroundings` — the integer unit beside the station, and one value for each producer.
* `Owed` — the invariant of an operand: what it has, or will be given, is what it is owed.
* `issue_delivers` — what every packet issued carries.
-/

namespace SloPPC603
namespace Station

open Clocked

/-! ## The station -/

/-- The inputs of one cycle. -/
structure Input where
  rstN : Bool := true
  cancel : Bool := false
  dispatchValid : Bool := false
  entry : RsEntry := default
  wakeValid : Bool := false
  wake : WakePacket := default
  wake1Valid : Bool := false
  wake1 : WakePacket := default
  iuDone : Bool := false
  iuProducer : CompletionTag := default
  iuValue : BitVec 32 := 0
  lsuDone : Bool := false
  lsuProducer : CompletionTag := default
  lsuValue : BitVec 32 := 0
  fwdDone : Bool := false
  fwdProducer : CompletionTag := default
  fwdValue : BitVec 32 := 0
  issueReady : Bool := false

/-- The registers; the entry is not reset. -/
structure State where
  occupied : Bool
  entry : RsEntry
  bypassA : Bool
  bypassB : Bool
  lateA : Bool
  lateB : Bool

/-! ### An operand -/

/-- A wake is for the tag and the producer of an operand. -/
def wakes (valid : Bool) (w : WakePacket) (o : Operand) : Bool :=
  valid && decide (o.tag = w.tag) && decide (o.producer = w.producer)

section Operand

variable (i : Input) (o : Operand)

/-- `resolve`. -/
def resolve : Operand :=
  if !o.ready && wakes i.wake1Valid i.wake1 o && !i.wake1.late then
    { o with ready := true, value := i.wake1.value }
  else if !o.ready && wakes i.wakeValid i.wake o && !i.wake.late then
    { o with ready := true, value := i.wake.value }
  else o

/-- `late_matches`, the second bus's bit. -/
def lateMatch1 : Bool := wakes i.wake1Valid i.wake1 o && i.wake1.late && !o.ready

/-- `late_matches`, the first bus's bit. -/
def lateMatch0 : Bool := wakes i.wakeValid i.wake o && i.wake.late && !o.ready

/-- A late wake on either bus. -/
def lateMatch : Bool := lateMatch1 i o || lateMatch0 i o

/-- The operand with a late wake's value. -/
def lateValue (p : Operand) : Operand :=
  if lateMatch i o then
    { p with value := if lateMatch1 i o then i.wake1.value else i.wake.value }
  else p

/-- `snoop`. -/
def snoop (bypass : Bool) : Operand :=
  if !o.ready && bypass && i.iuDone then { resolve i o with ready := true, value := i.iuValue }
  else resolve i o

/-- An operand that stays, after an edge. -/
def operandEdge (bypass late : Bool) : Operand :=
  lateValue i o (if late then { snoop i o bypass with ready := true } else snoop i o bypass)

/-- `lsu_a` and `lsu_b`. -/
def lsuHit : Bool := i.lsuDone && !o.ready && decide (o.producer = i.lsuProducer)

/-- `fwd_a` and `fwd_b`. -/
def fwdHit : Bool := i.fwdDone && !o.ready && decide (o.producer = i.fwdProducer)

/-- `ready_a` and `ready_b`. -/
def operandReady (bypass : Bool) : Bool :=
  o.ready || (bypass && i.iuDone) || lsuHit i o || fwdHit i o

/-- `select_operand`: the integer unit, the load/store unit, the forward port, the value held. -/
def selectOperand (bypass : Bool) : BitVec 32 :=
  if bypass then i.iuValue
  else if lsuHit i o then i.lsuValue
  else if fwdHit i o then i.fwdValue
  else o.value

end Operand

/-! ### The signals and the edge -/

section Signals

variable (s : State) (i : Input)

/-- `issue_valid_o`. -/
def issueValid : Bool :=
  !i.cancel && s.occupied && operandReady i s.entry.a s.bypassA && operandReady i s.entry.b s.bypassB

/-- `issue_fire`. -/
def issueFire : Bool := issueValid s i && i.issueReady

/-- `issue_o`. -/
def issue : IssuePacket where
  ctrl := s.entry.ctrl
  a := selectOperand i s.entry.a s.bypassA
  b := selectOperand i s.entry.b s.bypassB

/-- `dispatch_ready_o`. -/
def dispatchReady : Bool := !i.cancel && (!s.occupied || issueFire s i)

/-- `capture_fire`. -/
def captureFire : Bool := i.dispatchValid && dispatchReady s i

/-- `next_iu_producer`. -/
def nextIuProducer (o : Operand) : Bool :=
  if o.ready then false
  else if issueFire s i then decide (o.producer = s.entry.ctrl.producer)
  else !i.issueReady && decide (o.producer = i.iuProducer)

/-- One clock edge. -/
def step : State where
  entry :=
    if captureFire s i then
      { i.entry with
        a := lateValue i i.entry.a i.entry.a
        b := lateValue i i.entry.b i.entry.b }
    else
      { s.entry with
        a := operandEdge i s.entry.a s.bypassA s.lateA
        b := operandEdge i s.entry.b s.bypassB s.lateB }
  occupied :=
    if !i.rstN then false
    else if captureFire s i then true
    else if i.cancel || issueFire s i then false
    else s.occupied
  bypassA :=
    if !i.rstN then false
    else if captureFire s i then nextIuProducer s i i.entry.a
    else if i.iuDone then false
    else s.bypassA
  bypassB :=
    if !i.rstN then false
    else if captureFire s i then nextIuProducer s i i.entry.b
    else if i.iuDone then false
    else s.bypassB
  lateA :=
    if !i.rstN then false
    else if captureFire s i then lateMatch i i.entry.a
    else lateMatch i s.entry.a
  lateB :=
    if !i.rstN then false
    else if captureFire s i then lateMatch i i.entry.b
    else lateMatch i s.entry.b

end Signals

/-- The station as a clocked machine; a run starts with the station empty. -/
def machine : Machine State Input where
  Initial := fun s => s.occupied = false
  step := step

/-! ## The surroundings -/

/-- The value an operand is owed: its own when it arrived ready, else its producer's. -/
def owed (val : CompletionTag → BitVec 32) (o : Operand) : BitVec 32 :=
  if o.ready then o.value else val o.producer

/-- Every event for a producer carries its value. -/
structure Carries (val : CompletionTag → BitVec 32) (i : Input) : Prop where
  wake : i.wakeValid = true → i.wake.value = val i.wake.producer
  wake1 : i.wake1Valid = true → i.wake1.value = val i.wake1.producer
  iuValue : i.iuDone = true → i.iuValue = val i.iuProducer
  lsuValue : i.lsuDone = true → i.lsuValue = val i.lsuProducer
  fwdValue : i.fwdDone = true → i.fwdValue = val i.fwdProducer

/-- The integer unit beside the station, which holds the operation of `iu` before the edge
and that of `iu'` after it. -/
structure Beside (iu iu' : Option CompletionTag) (s : State) (i : Input) : Prop where
  /-- The producer shown is that of the operation held. -/
  shown : ∀ p, iu = some p → i.iuProducer = p
  /-- A unit that holds an operation takes another only once that one is done or cancelled. -/
  full : iu ≠ none → i.issueReady = true → i.iuDone = true ∨ i.cancel = true
  /-- A unit that takes nothing from an empty station keeps what it holds. -/
  busy : i.rstN = true → s.occupied = false → i.issueReady = false →
    i.cancel = true ∨ iu ≠ none ∧ i.iuDone = false
  /-- An operation issued is held until it is done, or cancelled with the station. -/
  held : i.rstN = true → i.cancel = false →
    iu' = if issueFire s i then some s.entry.ctrl.producer else if i.iuDone then none else iu

/-- The surroundings of the station. -/
structure Surroundings (val : CompletionTag → BitVec 32) (iu iu' : Option CompletionTag) (s : State)
    (i : Input) : Prop extends Carries val i, Beside iu iu' s i

/-! ## What an operand is owed -/

/-- An operand that is owed `v`, beside an integer unit that holds the operation of `iu`. -/
structure Owed (val : CompletionTag → BitVec 32) (iu : Option CompletionTag) (v : BitVec 32)
    (o : Operand) (bypass late : Bool) : Prop where
  pending : o.ready = false → val o.producer = v
  ready : o.ready = true → o.value = v
  late : late = true → o.value = v
  bypass : bypass = true → iu = some o.producer ∧ val o.producer = v

section Events

variable {val : CompletionTag → BitVec 32} {iu iu' : Option CompletionTag} {s : State} {i : Input}
  {o : Operand} {v : BitVec 32} {bypass late : Bool}

/-- A wake that matches an operand carries its producer's value. -/
theorem wakes_value {valid : Bool} {w : WakePacket} (hval : valid = true → w.value = val w.producer)
    (h : wakes valid w o = true) : w.value = val o.producer := by
  simp only [wakes, Bool.and_eq_true, decide_eq_true_eq] at h
  obtain ⟨⟨hvalid, -⟩, hproducer⟩ := h
  rw [hval hvalid, hproducer]

/-- A late wake leaves the value the operand is owed. -/
theorem lateValue_value (henv : Surroundings val iu iu' s i) (p : Operand)
    (hlate : lateMatch i o = true) : (lateValue i o p).value = val o.producer := by
  rw [lateValue, if_pos hlate]
  simp only [lateMatch, lateMatch1, lateMatch0, Bool.or_eq_true, Bool.and_eq_true] at hlate ⊢
  split_ifs with h1
  · exact wakes_value henv.wake1 h1.1.1
  · rcases hlate with h | h
    · exact absurd h h1
    · exact wakes_value henv.wake h.1.1

theorem lateMatch_pending (h : lateMatch i o = true) : o.ready = false := by
  simp only [lateMatch, lateMatch1, lateMatch0, Bool.or_eq_true, Bool.and_eq_true,
    Bool.not_eq_true'] at h
  rcases h with h | h
  · exact h.2
  · exact h.2

@[simp] theorem lateValue_ready (p : Operand) : (lateValue i o p).ready = p.ready := by
  rw [lateValue]
  split_ifs <;> rfl

@[simp] theorem lateValue_producer (p : Operand) : (lateValue i o p).producer = p.producer := by
  rw [lateValue]
  split_ifs <;> rfl

/-- **A wake resolves an operand to its producer's value.** -/
theorem resolve_cases (henv : Surroundings val iu iu' s i) :
    resolve i o = o ∨
      o.ready = false ∧ (resolve i o).producer = o.producer ∧
        (resolve i o).value = val o.producer := by
  rw [resolve]
  split_ifs with h1 h0
  · simp only [Bool.and_eq_true, Bool.not_eq_true'] at h1
    exact Or.inr ⟨h1.1.1, rfl, wakes_value henv.wake1 h1.1.2⟩
  · simp only [Bool.and_eq_true, Bool.not_eq_true'] at h0
    exact Or.inr ⟨h0.1.1, rfl, wakes_value henv.wake h0.1.2⟩
  · exact Or.inl rfl

/-- **The result of the operation held goes to the operand that bypasses it.** -/
theorem bypass_value (henv : Surroundings val iu iu' s i) (h : Owed val iu v o bypass late)
    (hbypass : bypass = true) (hdone : i.iuDone = true) : i.iuValue = v := by
  obtain ⟨hiu, hv⟩ := h.bypass hbypass
  rw [henv.iuValue hdone, henv.shown _ hiu, hv]

/-- What the station snoops is the operand as it was, or what it is owed. -/
theorem snoop_cases (henv : Surroundings val iu iu' s i) (h : Owed val iu v o bypass late) :
    (snoop i o bypass).producer = o.producer ∧
      (snoop i o bypass = o ∨ o.ready = false ∧ (snoop i o bypass).value = v) := by
  rw [snoop]
  rcases resolve_cases (o := o) henv with hsame | ⟨hpending, hproducer, hvalue⟩
  · rw [hsame]
    split_ifs with hhit
    · simp only [Bool.and_eq_true, Bool.not_eq_true'] at hhit
      exact ⟨rfl, Or.inr ⟨hhit.1.1, bypass_value henv h hhit.1.2 hhit.2⟩⟩
    · exact ⟨rfl, Or.inl rfl⟩
  · split_ifs with hhit
    · simp only [Bool.and_eq_true, Bool.not_eq_true'] at hhit
      exact ⟨hproducer, Or.inr ⟨hpending, bypass_value henv h hhit.1.2 hhit.2⟩⟩
    · exact ⟨hproducer, Or.inr ⟨hpending, hvalue.trans (h.pending hpending)⟩⟩

/-- An operand after an edge has what it is owed, or still waits for it. -/
theorem operandEdge_cases (henv : Surroundings val iu iu' s i) (h : Owed val iu v o bypass late) :
    (operandEdge i o bypass late).producer = o.producer ∧
      (o.ready = true → (operandEdge i o bypass late).ready = true) ∧
      ((operandEdge i o bypass late).value = v ∨
        (operandEdge i o bypass late).ready = false ∧ lateMatch i o = false) := by
  obtain ⟨hproducer, hsnoop⟩ := snoop_cases henv h
  refine ⟨?_, ?_, ?_⟩
  · rw [operandEdge, lateValue_producer]
    split_ifs <;> exact hproducer
  · intro hready
    rcases hsnoop with hsame | ⟨hpending, -⟩
    · rw [operandEdge, lateValue_ready, hsame]
      split_ifs
      · rfl
      · exact hready
    · exact nomatch (hready.symm.trans hpending)
  · cases hmatch : lateMatch i o with
    | true =>
      exact Or.inl ((lateValue_value henv _ hmatch).trans (h.pending (lateMatch_pending hmatch)))
    | false =>
      rw [operandEdge, lateValue, hmatch, if_neg Bool.false_ne_true]
      rcases hsnoop with hsame | ⟨-, hvalue⟩
      · rw [hsame]
        split_ifs with hlate
        · exact Or.inl (h.late hlate)
        · cases hready : o.ready with
          | true => exact Or.inl (h.ready hready)
          | false => exact Or.inr ⟨rfl, rfl⟩
      · split_ifs <;> exact Or.inl hvalue

/-- **An operand that stays is still owed the same.** -/
theorem owed_edge (henv : Surroundings val iu iu' s i) (h : Owed val iu v o bypass late)
    (hiu : i.iuDone = false → iu' = iu) :
    Owed val iu' v (operandEdge i o bypass late) (if i.iuDone then false else bypass)
      (lateMatch i o) := by
  obtain ⟨hproducer, hready, hvalue⟩ := operandEdge_cases henv h
  refine ⟨?_, ?_, ?_, ?_⟩
  · intro hpending
    rw [hproducer]
    apply h.pending
    rw [Bool.eq_false_iff]
    intro hold
    exact nomatch ((hready hold).symm.trans hpending)
  · intro hnow
    rcases hvalue with hvalue | ⟨hpending, -⟩
    · exact hvalue
    · exact nomatch (hnow.symm.trans hpending)
  · intro hmatch
    rcases hvalue with hvalue | ⟨-, hnone⟩
    · exact hvalue
    · exact nomatch (hmatch.symm.trans hnone)
  · intro hbypass
    split_ifs at hbypass with hdone
    rw [hproducer, hiu (by simpa using hdone)]
    exact h.bypass hbypass

/-- **An operand captured is owed its own value or its producer's.** -/
theorem owed_capture (henv : Surroundings val iu iu' s i) (hrst : i.rstN = true)
    (hcapture : captureFire s i = true) (o : Operand) :
    Owed val iu' (owed val o) (lateValue i o o) (nextIuProducer s i o) (lateMatch i o) := by
  simp only [captureFire, dispatchReady, Bool.and_eq_true, Bool.or_eq_true, Bool.not_eq_true']
    at hcapture
  obtain ⟨-, hcancel, hroom⟩ := hcapture
  have hheld := henv.held hrst hcancel
  refine ⟨?_, ?_, ?_, ?_⟩
  · intro hpending
    rw [lateValue_ready] at hpending
    rw [lateValue_producer, owed, hpending, if_neg Bool.false_ne_true]
  · intro hready
    rw [lateValue_ready] at hready
    have hnone : ¬ lateMatch i o = true := by
      intro hmatch
      exact nomatch (hready.symm.trans (lateMatch_pending hmatch))
    rw [lateValue, if_neg hnone, owed, if_pos hready]
  · intro hmatch
    rw [lateValue_value henv o hmatch, owed, lateMatch_pending hmatch, if_neg Bool.false_ne_true]
  · intro hbypass
    rw [nextIuProducer] at hbypass
    rw [lateValue_producer]
    split_ifs at hbypass with hready hfire
    · rw [hheld, if_pos hfire, of_decide_eq_true hbypass, owed, if_neg hready,
        of_decide_eq_true hbypass]
      exact ⟨rfl, rfl⟩
    · simp only [Bool.and_eq_true, Bool.not_eq_true', decide_eq_true_eq] at hbypass
      have hempty : s.occupied = false := hroom.resolve_right hfire
      obtain ⟨hiu, hdone⟩ := (henv.busy hrst hempty hbypass.1).resolve_left (by simp [hcancel])
      obtain ⟨p, hp⟩ := Option.ne_none_iff_exists'.1 hiu
      rw [hheld, if_neg hfire, hdone, if_neg Bool.false_ne_true, hp, owed, if_neg hready,
        hbypass.2, henv.shown p hp]
      exact ⟨rfl, rfl⟩

/-- **An operand issued is what it is owed.** -/
theorem owed_issued (henv : Surroundings val iu iu' s i) (h : Owed val iu v o bypass late)
    (hroom : i.issueReady = true) (hcancel : i.cancel = false)
    (hready : operandReady i o bypass = true) : selectOperand i o bypass = v := by
  rw [selectOperand]
  split_ifs with hbypass hlsu hfwd
  · obtain ⟨hiu, -⟩ := h.bypass hbypass
    have hdone := henv.full (by rw [hiu]; exact Option.some_ne_none _) hroom
    rw [hcancel] at hdone
    exact bypass_value henv h hbypass (hdone.resolve_right Bool.false_ne_true)
  · simp only [lsuHit, Bool.and_eq_true, Bool.not_eq_true', decide_eq_true_eq] at hlsu
    rw [henv.lsuValue hlsu.1.1, ← hlsu.2]
    exact h.pending hlsu.1.2
  · simp only [fwdHit, Bool.and_eq_true, Bool.not_eq_true', decide_eq_true_eq] at hfwd
    rw [henv.fwdValue hfwd.1.1, ← hfwd.2]
    exact h.pending hfwd.1.2
  · rw [operandReady, Bool.eq_false_iff.2 hbypass, Bool.eq_false_iff.2 hlsu,
      Bool.eq_false_iff.2 hfwd] at hready
    exact h.ready (by simpa using hready)

end Events

/-! ## Along a run -/

/-- The entry captured last. -/
def captured (r : Run machine) : ℕ → RsEntry :=
  r.history default fun e s i => if captureFire s i then i.entry else e

/-- The entry in the station is that of the capture, each operand owed what it was then. -/
structure Holds (val : CompletionTag → BitVec 32) (iu : Option CompletionTag) (e : RsEntry)
    (s : State) : Prop where
  ctrl : s.entry.ctrl = e.ctrl
  a : Owed val iu (owed val e.a) s.entry.a s.bypassA s.lateA
  b : Owed val iu (owed val e.b) s.entry.b s.bypassB s.lateB

section Run

variable {val : CompletionTag → BitVec 32} {iu iu' : Option CompletionTag} {s : State} {i : Input}
  {e : RsEntry}

/-- **An edge keeps the entry captured, or captures another.** -/
theorem holds_step (henv : Surroundings val iu iu' s i)
    (h : s.occupied = true → Holds val iu e s) (hocc : (step s i).occupied = true) :
    Holds val iu' (if captureFire s i then i.entry else e) (step s i) := by
  have hrst : i.rstN = true := by
    by_contra hno
    simp [step, hno] at hocc
  cases hcapture : captureFire s i with
  | true =>
    rw [if_pos rfl]
    refine ⟨?_, ?_, ?_⟩
    · simp [step, hcapture]
    · simpa [step, hcapture, hrst] using owed_capture henv hrst hcapture i.entry.a
    · simpa [step, hcapture, hrst] using owed_capture henv hrst hcapture i.entry.b
  | false =>
    rw [if_neg Bool.false_ne_true]
    have hstays : i.cancel = false ∧ issueFire s i = false ∧ s.occupied = true := by
      simpa [step, hrst, hcapture, and_assoc] using hocc
    obtain ⟨hcancel, hfire, hold⟩ := hstays
    obtain ⟨hctrl, ha, hb⟩ := h hold
    have hiu : i.iuDone = false → iu' = iu := by
      intro hdone
      rw [henv.held hrst hcancel, hfire, hdone, if_neg Bool.false_ne_true,
        if_neg Bool.false_ne_true]
    refine ⟨?_, ?_, ?_⟩
    · simpa [step, hcapture] using hctrl
    · simpa [step, hcapture, hrst] using owed_edge henv ha hiu
    · simpa [step, hcapture, hrst] using owed_edge henv hb hiu

/-- **The station delivers each producer's value.**  Beside an integer unit that holds each
operation issued until it is done or cancelled with the station, and where every event for a
producer carries one value, the packet issued has the controls of the entry captured last,
and each of its operands is the value captured, if it was ready then, or else the value of
its producer. -/
theorem issue_delivers (r : Run machine) (iu : ℕ → Option CompletionTag) (n : ℕ)
    (henv : ∀ k ≤ n, Surroundings val (iu k) (iu (k + 1)) (r.state k) (r.input k))
    (hfire : issueFire (r.state n) (r.input n) = true) :
    let out := issue (r.state n) (r.input n)
    out.ctrl = (captured r n).ctrl ∧ out.a = owed val (captured r n).a ∧
      out.b = owed val (captured r n).b := by
  have hholds : ∀ k ≤ n, (r.state k).occupied = true →
      Holds val (iu k) (captured r k) (r.state k) := by
    intro k
    induction k with
    | zero =>
      intro _ hocc
      exact absurd (r.initial.symm.trans hocc) Bool.false_ne_true
    | succ k ih =>
      intro hk hocc
      exact holds_step (henv k (by omega)) (ih (by omega)) hocc
  simp only [issueFire, issueValid, Bool.and_eq_true, Bool.not_eq_true'] at hfire
  obtain ⟨⟨⟨⟨hcancel, hocc⟩, hreadyA⟩, hreadyB⟩, hroom⟩ := hfire
  obtain ⟨hctrl, ha, hb⟩ := hholds n le_rfl hocc
  have hnow := henv n le_rfl
  exact ⟨hctrl, owed_issued hnow ha hroom hcancel hreadyA,
    owed_issued hnow hb hroom hcancel hreadyB⟩

end Run

/-- An entry captured at the first edge, its left operand woken at the second. -/
def woken : Run machine where
  start := ⟨false, default, true, true, true, true⟩
  initial := rfl
  input
    | 0 => {
        dispatchValid := true
        entry := { (default : RsEntry) with b := { (default : Operand) with ready := true, value := 5 } }
        issueReady := true }
    | 1 => {
        wakeValid := true
        wake := { (default : WakePacket) with value := 42 }
        issueReady := true }
    | _ => { issueReady := true }

theorem issue_delivers_woken : (issue (woken.state 2) (woken.input 2)).a = 42 ∧
    (issue (woken.state 2) (woken.input 2)).b = 5 := by
  have henv : ∀ k ≤ 2, Surroundings (fun _ => 42) (if k = 3 then some default else none)
      (if k + 1 = 3 then some default else none) (woken.state k) (woken.input k) := by
    intro k hk
    have hcases : k = 0 ∨ k = 1 ∨ k = 2 := by omega
    rcases hcases with rfl | rfl | rfl
    all_goals
      refine ⟨⟨?_, ?_, ?_, ?_, ?_⟩, ⟨?_, ?_, ?_, ?_⟩⟩ <;> decide
  obtain ⟨-, ha, hb⟩ := issue_delivers woken _ 2 henv (by decide)
  exact ⟨ha, hb⟩

end Station
end SloPPC603
