import SloPPC603.Bus602.Model

/-!
# What an edge of the 602 bridge does

* `Event`, `event` — what happens to the transaction of the head.
* `Phase`, `workEdge_phase` — the registers of the transaction after an edge.
* `event_cases` — when each event happens.
-/

namespace SloPPC603
namespace Bus602

/-! ## The events of a transaction -/

/-- What happens to the transaction of the head on an edge. -/
inductive Event where
  /-- Nothing. -/
  | none
  /-- The address phase starts. -/
  | start
  /-- The target or another master retries the transaction. -/
  | retry
  /-- AACK ends the address phase. -/
  | aack
  /-- A transaction of no data ends. -/
  | kill
  /-- TEA ends the transaction. -/
  | error
  /-- The target acknowledges a beat. -/
  | beat
  /-- The pins have rested for a cycle. -/
  | rest
  deriving DecidableEq

/-- The event of a cycle. -/
def event (s : State) (i : Input) (w : ℕ) : Event :=
  match s.state with
  | .idle => if wantBus s w && qualBg i then .start else .none
  | .addr => if !i.artryN && !s.tsFirst then .retry else if !i.aackN then .aack else .none
  | .data =>
    if s.first && !i.artryN then .retry
    else if s.q0.addrOnly then .kill
    else if !i.teaN then .error
    else if !i.taN then .beat
    else .none
  | .gap => .rest

/-- The event ends the transaction. -/
def Event.ends (s : State) : Event → Bool
  | .kill | .error => true
  | .beat => beatLast s
  | _ => false

/-- The registers of the transaction. -/
structure Phase where
  state : PinState
  t32 : Bool
  beat : ℕ
  beats : ℕ
  be : BitVec 8
  buf : ℕ → BitVec 64
  avail : ℕ
  rd : ℕ
  readError : Bool
  headPinDone : Bool
  writeError : Bool
  first : Bool

/-- The registers of the transaction. -/
def State.phase (s : State) : Phase :=
  ⟨s.state, s.t32, s.beat, s.beats, s.be, s.buf, s.avail, s.rd, s.readError, s.headPinDone,
    s.writeError, s.first⟩

/-- The registers of the transaction after an event. -/
def Phase.after (p : Phase) (s : State) (i : Input) : Event → Phase
  | .none => { p with first := p.first && p.state ≠ .data }
  | .start => { p with state := .addr, be := if s.q0.burst then 0xff else headBe s }
  | .retry => { p with state := .gap, first := p.first && p.state ≠ .data }
  | .aack =>
    { p with
      state := .data, t32 := !i.t32N, first := true, beat := 0, beats := beatsOf s (!i.t32N)
      avail := 0, rd := 0, readError := false }
  | .kill => { p with state := .gap, first := false, headPinDone := true }
  | .error =>
    { p with
      state := .gap, first := false, headPinDone := true, readError := !s.q0.write || p.readError
      writeError := s.q0.write || p.writeError }
  | .beat =>
    { p with
      state := if beatLast s then .gap else .data
      first := false
      headPinDone := beatLast s || p.headPinDone
      beat := (s.beat + 1) % 16
      buf := if s.q0.write then p.buf else Function.update p.buf (dw s) (readBuf s i)
      avail := if !s.q0.write && readWhole s then (s.avail + 1) % 8 else p.avail }
  | .rest => { p with state := .idle, first := false }

section Fields

variable (s : State) (i : Input) (w : ℕ) (b : State)

theorem pinEdge_phase (hb : b.state = s.state) :
    (pinEdge s i w b).phase = b.phase.after s i (event s i w) := by
  have hidle : b.phase.state ≠ .data → (b.first && decide (b.phase.state ≠ .data)) = b.first :=
    fun hne => by rw [decide_eq_true hne, Bool.and_true]
  have hdata : b.phase.state = .data → (b.first && decide (b.phase.state ≠ .data)) = false :=
    fun heq => by rw [decide_eq_false (not_not.2 heq), Bool.and_false]
  unfold pinEdge event
  cases hst : s.state with
  | idle =>
    dsimp only
    have hfirst := hidle (by rw [show b.phase.state = s.state from hb, hst]; decide)
    by_cases hgo : (wantBus s w && qualBg i) = true
    · rw [if_pos hgo, if_pos hgo]
      rfl
    · rw [if_neg hgo, if_neg hgo, Phase.after]
      exact (congrArg (fun f => { b.phase with first := f }) hfirst).symm
  | addr =>
    dsimp only
    have hfirst := hidle (by rw [show b.phase.state = s.state from hb, hst]; decide)
    by_cases hretry : (!i.artryN && !s.tsFirst) = true
    · rw [if_pos hretry, if_pos hretry, Phase.after]
      exact (congrArg (fun f => { b.phase with state := .gap, first := f }) hfirst).symm
    · rw [if_neg hretry, if_neg hretry]
      by_cases haack : (!i.aackN) = true
      · rw [if_pos haack, if_pos haack]
        rfl
      · rw [if_neg haack, if_neg haack, Phase.after]
        exact (congrArg (fun f => { b.phase with first := f }) hfirst).symm
  | data =>
    dsimp only
    have hfirst := hdata (hb.trans hst)
    by_cases hretry : (s.first && !i.artryN) = true
    · rw [if_pos hretry, if_pos hretry, Phase.after]
      exact (congrArg (fun f => { b.phase with state := .gap, first := f }) hfirst).symm
    rw [if_neg hretry, if_neg hretry]
    by_cases honly : s.q0.addrOnly = true
    · rw [if_pos honly, if_pos honly]
      rfl
    rw [if_neg honly, if_neg honly]
    by_cases htea : (!i.teaN) = true
    · rw [if_pos htea, if_pos htea]
      unfold Phase.after
      cases s.q0.write <;> rfl
    rw [if_neg htea, if_neg htea]
    by_cases hta : (!i.taN) = true
    · rw [if_pos hta, if_pos hta]
      unfold Phase.after
      have hdata : b.phase.state = .data := hb.trans hst
      cases hlast : beatLast s <;> cases s.q0.write <;> cases readWhole s <;>
        simp [State.phase, pinDone] <;> exact hdata
    · rw [if_neg hta, if_neg hta, Phase.after]
      exact (congrArg (fun f => { b.phase with first := f }) hfirst).symm
  | gap => rfl

/-- The registers that no part of an edge but the core's beats and the queue changes. -/
theorem pinEdge_core : (pinEdge s i w b).q0 = b.q0 ∧ (pinEdge s i w b).q1 = b.q1 ∧
    (pinEdge s i w b).count = b.count ∧ (pinEdge s i w b).cap = b.cap ∧
      (pinEdge s i w b).headCoreDone = b.headCoreDone := by
  unfold pinEdge
  cases s.state with
  | idle =>
    dsimp only
    split_ifs <;> exact ⟨rfl, rfl, rfl, rfl, rfl⟩
  | addr =>
    dsimp only
    split_ifs <;> exact ⟨rfl, rfl, rfl, rfl, rfl⟩
  | data =>
    dsimp only
    split_ifs <;> exact ⟨rfl, rfl, rfl, rfl, rfl⟩
  | gap => exact ⟨rfl, rfl, rfl, rfl, rfl⟩

/-- The registers of the transaction after the core's beats. -/
def corePhase : Phase :=
  { s.phase with
    rd := if cReadBeat s i then (s.rd + 1) % 4 else s.rd
    writeError := false }

/-- The registers that `pinEdge` is given. -/
def pinBase : State :=
  coreEdge s i
    { snoopEdge s i s with
      ownAack := cTs i, writeError := false, gap := false
      wait := if castoutWait s w && s.headCoreDone then (s.wait + 1) % 16 else s.wait }

theorem workEdge_eq : workEdge s i w = { pinEdge s i w (pinBase s i w) with
    buf := if cWriteBeat s i then Function.update (pinEdge s i w (pinBase s i w)).buf s.cap i.cD
      else (pinEdge s i w (pinBase s i w)).buf } := rfl

/-- **The transaction after an edge.** -/
theorem workEdge_phase : (workEdge s i w).phase =
    let p := (corePhase s i).after s i (event s i w)
    { p with buf := if cWriteBeat s i then Function.update p.buf s.cap i.cD else p.buf } := by
  have hafter := pinEdge_phase s i w (pinBase s i w) rfl
  have hbase : (pinBase s i w).phase = corePhase s i := rfl
  rw [hbase] at hafter
  rw [workEdge_eq]
  dsimp only
  rw [← hafter]
  rfl

/-- The queue and the core's side before the queue moves. -/
theorem workEdge_core : (workEdge s i w).q0 = s.q0 ∧ (workEdge s i w).q1 = s.q1 ∧
    (workEdge s i w).count = s.count ∧
      (workEdge s i w).cap = (if cWriteBeat s i then (s.cap + 1) % 4 else s.cap) ∧
      (workEdge s i w).headCoreDone = ((cWriteBeat s i && s.cap + 1 = coreBeats s) ||
        (cReadBeat s i && s.rd + 1 = coreBeats s) || cTea s i || s.headCoreDone) := by
  obtain ⟨hq0, hq1, hcount, hcap, hdone⟩ := pinEdge_core s i w (pinBase s i w)
  exact ⟨hq0, hq1, hcount, hcap, hdone⟩

/-- The word of an address phase is taken when it starts. -/
theorem edge_addrWord : (edge s i w).addrWord =
    if event s i w = .start then addrWordNow s else s.addrWord := by
  have hpin : ∀ b : State, (pinEdge s i w b).addrWord =
      if event s i w = .start then addrWordNow s else b.addrWord := by
    intro b
    unfold pinEdge event
    cases s.state <;> dsimp only
    case idle => split_ifs <;> simp_all
    case addr => split_ifs <;> simp_all
    case data => split_ifs <;> simp_all [pinDone]
    case gap => simp
  have hqueue : ∀ b : State, (queueEdge s i b).addrWord = b.addrWord := by
    intro b
    unfold queueEdge
    dsimp only
    split_ifs <;> rfl
  rw [edge, hqueue]
  exact hpin (pinBase s i w)

/-- **The registers after an edge on which the head stays.** -/
theorem edge_stay (hpop : pop s = false) : (edge s i w).phase = (workEdge s i w).phase ∧
    (edge s i w).cap = (workEdge s i w).cap ∧
    (edge s i w).q0 = (if enq i && s.count = 0 then cEntry i else s.q0) ∧
    (edge s i w).q1 = (if enq i && s.count ≠ 0 then cEntry i else s.q1) ∧
    (edge s i w).count = (s.count + (enq i).toNat + 4) % 4 ∧
    (edge s i w).headCoreDone =
      ((s.count ≠ 0 && s.q0.addrOnly) || (workEdge s i w).headCoreDone) := by
  obtain ⟨hq0, hq1, -, -, -⟩ := workEdge_core s i w
  unfold edge queueEdge
  simp only [hpop, Bool.false_eq_true, if_false, Bool.not_false, Bool.true_and, Bool.false_and,
    Bool.or_false, Bool.toNat_false, Nat.sub_zero]
  by_cases henq : enq i = true
  · by_cases hc : s.count = 0
    · simp [henq, hc, hq1, State.phase]
    · simp [henq, hc, hq0, State.phase]
  · simp [henq, hq0, hq1, State.phase]

/-- **The registers after an edge on which the head leaves.** -/
theorem edge_pop (hpop : pop s = true) : (edge s i w).phase =
      { (workEdge s i w).phase with headPinDone := false, avail := 0, rd := 0, readError := false } ∧
    (edge s i w).cap = 0 ∧
    (edge s i w).q0 = (if enq i && s.count - 1 = 0 then cEntry i else s.q1) ∧
    (edge s i w).q1 = (if enq i && s.count - 1 ≠ 0 then cEntry i else s.q1) ∧
    (edge s i w).count = (s.count + (enq i).toNat + 4 - 1) % 4 ∧
    (edge s i w).headCoreDone = (s.count = 2 && s.q1.addrOnly) := by
  obtain ⟨-, hq1, -, -, -⟩ := workEdge_core s i w
  rw [← hq1]
  unfold edge queueEdge
  simp only [hpop, if_true, Bool.not_true, Bool.false_and, Bool.true_and, Bool.false_or,
    Bool.toNat_true, hq1]
  by_cases henq : enq i = true
  · by_cases hc : s.count - 1 = 0
    · simp [henq, hc, State.phase]
    · simp [henq, hc, State.phase]
  · simp [henq, State.phase]

end Fields

/-! ## When the events happen -/

section When

variable {s : State} {i : Input} {w : ℕ}

/-- The phase an event happens in. -/
theorem event_spec (s : State) (i : Input) (w : ℕ) : match event s i w with
    | .none => True
    | .start => s.state = .idle ∧ wantBus s w = true
    | .retry => s.state = .addr ∨ s.state = .data
    | .aack => s.state = .addr
    | .kill => s.state = .data ∧ s.q0.addrOnly = true
    | .error => s.state = .data ∧ s.q0.addrOnly = false
    | .beat => s.state = .data ∧ s.q0.addrOnly = false
    | .rest => s.state = .gap := by
  unfold event
  cases hst : s.state with
  | idle =>
    dsimp only
    by_cases hgo : (wantBus s w && qualBg i) = true
    · rw [if_pos hgo]
      exact ⟨rfl, (Bool.and_eq_true_iff.1 hgo).1⟩
    · rw [if_neg hgo]
      trivial
  | addr =>
    dsimp only
    by_cases hretry : (!i.artryN && !s.tsFirst) = true
    · rw [if_pos hretry]
      exact .inl rfl
    · rw [if_neg hretry]
      by_cases haack : (!i.aackN) = true
      · rw [if_pos haack]
      · rw [if_neg haack]
        trivial
  | data =>
    dsimp only
    by_cases hretry : (s.first && !i.artryN) = true
    · rw [if_pos hretry]
      exact .inr rfl
    rw [if_neg hretry]
    by_cases honly : s.q0.addrOnly = true
    · rw [if_pos honly]
      exact ⟨rfl, honly⟩
    have honly' : s.q0.addrOnly = false := by simpa using honly
    rw [if_neg honly]
    by_cases htea : (!i.teaN) = true
    · rw [if_pos htea]
      exact ⟨rfl, honly'⟩
    rw [if_neg htea]
    by_cases hta : (!i.taN) = true
    · rw [if_pos hta]
      exact ⟨rfl, honly'⟩
    · rw [if_neg hta]
      trivial
  | gap => rfl

end When

end Bus602
end SloPPC603
