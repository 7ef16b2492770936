import SloPPC603.Clocked.Buffer
import SloPPC603.Clocked.LeadsTo
import SloPPC603.Fpu.Arith

/-!
# One reply for each request

Every request accepted since the last flush has left, is queued or is in flight, in that
order; the credits bound the queue, and the time a division takes empties the pipeline
before its result is due.

* `Log`, `inFlight`, `queued` — the tags of a run, of its stages and of its queue.
* `work`, `remaining` — the cycles the stages need at most, and those the division leaves.
* `Inv`, `inv_step` — the registers against the log.
* `OneReply`, `one_reply` — what a run of the unit shows.
-/

namespace SloPPC603
namespace Fpu
namespace Arith

open Clocked

/-! ## The requests of a run -/

/-- The requests accepted and the replies that have left since the last flush. -/
structure Log where
  accepted : List CompletionTag
  left : List CompletionTag

/-- The log over a clock edge. -/
def Log.update (cpu602 : Bool) (l : Log) (s : State) (i : Input) : Log :=
  if !i.rstN || i.flush then ⟨[], []⟩
  else
    { accepted := l.accepted ++ if accept cpu602 s i then [i.req.tag] else []
      left := l.left ++ if retire s i then [(rsp s).tag] else [] }

/-- A division has a result to come. -/
def dividing (d : Divider.State) : Bool := Divider.busy d && !Divider.finishing d

/-- The request in the divider. -/
def inDivider (d : Divider.State) : List CompletionTag := if dividing d then [d.tag] else []

/-- The requests in the stages and the divider, oldest first. -/
def inFlight (s : State) : List CompletionTag :=
  (if s.addValid then [s.add.req.tag] else []) ++
    (if s.alignedValid then [s.aligned.req.tag] else []) ++
    (if s.multiplyValid then [s.multiply.req.tag] else []) ++
    (if s.inputValid then [s.input.tag] else []) ++ inDivider s.divider

/-- The replies held. -/
def queued (s : State) : List CompletionTag :=
  (Buffer.entries s.response s.responseRead s.responseCount.toNat).map ArithRsp.tag

/-! ## The time of a division -/

/-- The cycles that the stages need to drain, at most. -/
def work (s : State) : ℕ :=
  (if s.addValid then s.roundWait.toNat + 1 else 0) + (if s.alignedValid then 4 else 0) +
    (if s.multiplyValid then 5 else 0) + if s.inputValid then 6 else 0

/-- The cycles before the result of a division goes to the rounder, at least. -/
def remaining (d : Divider.State) : ℕ :=
  match d.phase with
  | .start => 7
  | .iter => d.rounds.toNat + 2
  | .norm => 3
  | .spNormTiny | .tiny => 2
  | .pre => 1
  | .special => d.specialCount.toNat - 2
  | _ => 0

/-- The same, at most. -/
def longest (d : Divider.State) : ℕ :=
  match d.phase with
  | .start => 100
  | .iter => d.rounds.toNat + 5
  | .norm => 5
  | .spNormTiny | .tiny => 4
  | .pre => 3
  | .round => 2
  | .special => d.specialCount.toNat
  | _ => 0

/-! ## The invariant -/

/-- The replies prepared for special operands carry their request's tag. -/
structure Tagged (cpu602 : Bool) (s : State) : Prop where
  add : s.addValid = true → (roundResponse cpu602 s.add).tag = s.add.req.tag
  aligned : s.alignedValid = true → s.aligned.finite = false → s.aligned.conversion = false →
    s.aligned.specialRsp.tag = s.aligned.req.tag
  multiply : s.multiplyValid = true → s.multiply.finite = false →
    s.multiply.specialRsp.tag = s.multiply.req.tag

/-- The divider's counters. -/
structure Counting (d : Divider.State) : Prop where
  rounds : d.phase = .iter → 1 ≤ d.rounds.toNat
  count : d.phase = .special → 1 ≤ d.specialCount.toNat
  pending : d.phase = .special → d.specialPending = true → 3 ≤ d.specialCount.toNat
  tagged : d.phase = .special → d.specialPending = false → d.specialRsp.tag = d.tag

/-- The registers against the log. -/
structure Inv (cpu602 : Bool) (s : State) (l : Log) : Prop where
  order : l.accepted = l.left ++ queued s ++ inFlight s
  outstanding : l.left.length + s.outstanding.toNat = l.accepted.length
  credits : s.outstanding.toNat ≤ 4
  write : s.responseWrite = s.responseRead + BitVec.ofNat 2 s.responseCount.toNat
  exclusive : s.multiplyValid = true → s.inputValid = false
  drain : dividing s.divider = true → work s ≤ remaining s.divider
  wait : s.roundWait.toNat ≤ 2
  tagged : Tagged cpu602 s
  counting : Counting s.divider

section Step

variable {cpu602 : Bool} {s : State} {i : Input} {l : Log}

/-! ## The divider -/

theorem tag_ite {c : Prop} [Decidable c] {tag : CompletionTag} {a b : ArithRsp} (ha : a.tag = tag)
    (hb : b.tag = tag) : (if c then a else b).tag = tag := by
  split_ifs
  · exact ha
  · exact hb

theorem calculate_tag (tag : CompletionTag) (op : Op) (a b c : BitVec 64) (o : Operand)
    (ve ze : Bool) : (calculate cpu602 tag op a b c o ve ze).tag = tag := by
  unfold calculate
  dsimp only
  repeat' first
    | rfl
    | apply tag_ite

theorem specialRsp_tag {q : ArithReq} (hf : finite q = false) (hc : conversion q = false) :
    (specialRsp cpu602 q).tag = q.tag := by
  rw [specialRsp, hf, hc]
  exact calculate_tag _ _ _ _ _ _ _ _

section DividerStep

variable {d : Divider.State} {start : Bool} {q : ArithReq}

variable (cpu602)

/-- A division in progress keeps its request. -/
theorem divider_tag (h : dividing d = true) (rstN flush start : Bool) :
    (Divider.step cpu602 d rstN flush start q).tag = d.tag := by
  simp only [dividing, Divider.busy, Bool.and_eq_true, decide_eq_true_eq, Bool.not_eq_true'] at h
  have hload : (decide (d.phase = .idle) || Divider.finishing d) = false := by
    rw [h.2, decide_eq_false h.1]
    rfl
  have hdata : (Divider.datapath cpu602 d).tag = d.tag := by
    unfold Divider.datapath
    cases d.phase <;> dsimp only <;> split_ifs <;> rfl
  rw [Divider.step, Divider.load, hload]
  exact hdata

/-- The state of a divider that is not restarted. -/
theorem divider_fields (d : Divider.State) (q : ArithReq) :
    (Divider.step cpu602 d true false false q).phase = Divider.nextPhase d true false false ∧
      (Divider.step cpu602 d true false false q).specialCount =
        (Divider.nextSpecial d true false false).2 ∧
      (Divider.step cpu602 d true false false q).specialPending =
        (Divider.nextSpecial d true false false).1 ∧
      (Divider.step cpu602 d true false false q).rounds = (Divider.datapath cpu602 d).rounds ∧
      (Divider.step cpu602 d true false false q).specialRsp =
        (Divider.datapath cpu602 d).specialRsp := by
  refine ⟨rfl, rfl, rfl, ?_, ?_⟩ <;> (unfold Divider.step Divider.load; split_ifs <;> rfl)

theorem dividing_special (h : d.phase = .special) :
    dividing d = !decide (d.specialCount = 1) := by
  rw [dividing, Divider.busy, Divider.finishing, h]
  rfl

/-- The counters of a phase that has none. -/
theorem counting_of_phase (hi : d.phase ≠ .iter) (hs : d.phase ≠ .special) : Counting d :=
  ⟨fun h => absurd h hi, fun h => absurd h hs, fun h => absurd h hs, fun h => absurd h hs⟩

/-- **A division takes its steps one a cycle**, and gives its result the cycle before it ends. -/
theorem divider_step (h : dividing d = true) (hc : Counting d) :
    dividing (Divider.step cpu602 d true false false q) = !Divider.nextFinish d ∧
      (Divider.nextFinish d = false →
        remaining d ≤ remaining (Divider.step cpu602 d true false false q) + 1 ∧
          longest (Divider.step cpu602 d true false false q) < longest d) ∧
      Counting (Divider.step cpu602 d true false false q) := by
  have htag := divider_tag cpu602 (q := q) h true false false
  obtain ⟨hphase, hcount, hpending, hrounds, hrsp⟩ := divider_fields cpu602 d q
  generalize Divider.step cpu602 d true false false q = d' at *
  simp only [Divider.nextPhase, Bool.not_true, Bool.or_false, Bool.false_eq_true, if_false] at hphase
  simp only [Divider.nextSpecial, Bool.not_true, Bool.or_false, Bool.false_eq_true, if_false]
    at hcount hpending
  simp only [Divider.datapath] at hrounds hrsp
  -- a phase that follows at once
  have hnext : ∀ x : Divider.Phase, d'.phase = x → x ≠ .idle → x ≠ .pack → x ≠ .iter →
      x ≠ .special → dividing d' = true ∧ Counting d' := by
    rintro x hx h1 h2 h3 h4
    refine ⟨?_, counting_of_phase (by rwa [hx]) (by rwa [hx])⟩
    simp [dividing, Divider.busy, Divider.finishing, hx, h1, h2, h4]
  cases hp : d.phase with
  | idle | pack => simp [dividing, Divider.busy, Divider.finishing, hp] at h
  | spNormTiny | tiny =>
    rw [hp] at hphase
    dsimp only at hphase
    obtain ⟨hd, hc'⟩ := hnext _ hphase (by decide) (by decide) (by decide) (by decide)
    exact ⟨by simp [hd, Divider.nextFinish, hp], fun _ => by simp [remaining, longest, hp, hphase], hc'⟩
  | norm =>
    rw [hp] at hphase
    dsimp only at hphase
    obtain ⟨hd, hc'⟩ := hnext _ hphase (by decide) (by decide) (by decide) (by decide)
    exact ⟨by simp [hd, Divider.nextFinish, hp], fun _ => by simp [remaining, longest, hp, hphase], hc'⟩
  | pre =>
    rw [hp] at hphase
    dsimp only at hphase
    obtain ⟨hd, hc'⟩ := hnext _ hphase (by decide) (by decide) (by decide) (by decide)
    exact ⟨by simp [hd, Divider.nextFinish, hp], fun _ => by simp [remaining, longest, hp, hphase], hc'⟩
  | round =>
    rw [hp] at hphase
    dsimp only at hphase
    refine ⟨?_, fun hn => by simp [Divider.nextFinish, hp] at hn,
      counting_of_phase (by rw [hphase]; decide) (by rw [hphase]; decide)⟩
    simp [dividing, Divider.busy, Divider.finishing, Divider.nextFinish, hp, hphase]
  | start =>
    rw [hp] at hphase hcount hpending hrounds
    have hfinish : Divider.nextFinish d = false := by simp [Divider.nextFinish, hp]
    rw [hfinish]
    cases hs : Divider.startSpecial d with
    | true =>
      simp only [hs, if_true] at hphase hcount hpending
      have hlarge : 17 ≤ d'.specialCount.toNat ∧ d'.specialCount.toNat ≤ 32 := by
        rw [hcount]
        split_ifs <;> decide
      refine ⟨?_, fun _ => ?_, ?_⟩
      · have hone : d'.specialCount ≠ 1 := fun heq => by simp [heq] at hlarge
        rw [dividing_special hphase, decide_eq_false hone]
      · simp only [remaining, longest, hp, hphase]
        omega
      · refine ⟨fun hi => ?_, fun _ => by omega, fun _ _ => by omega, fun _ hno => ?_⟩
        · rw [hphase] at hi
          cases hi
        · rw [hpending] at hno
          cases hno
    | false =>
      simp only [hs, Bool.false_eq_true, if_false] at hphase hrounds
      have hlarge : 13 ≤ d'.rounds.toNat ∧ d'.rounds.toNat ≤ 27 := by
        rw [hrounds]
        split_ifs <;> decide
      refine ⟨?_, fun _ => ?_, ?_⟩
      · simp [dividing, Divider.busy, Divider.finishing, hphase]
      · simp only [remaining, longest, hp, hphase]
        omega
      · refine ⟨fun _ => by omega, ?_, ?_, ?_⟩ <;>
          (intro hx; rw [hphase] at hx; cases hx)
  | iter =>
    rw [hp] at hphase hrounds
    have hpos := hc.rounds hp
    have hfinish : Divider.nextFinish d = false := by simp [Divider.nextFinish, hp]
    rw [hfinish]
    dsimp only at hphase hrounds
    split_ifs at hphase with hone hsingle
    · obtain ⟨hd, hc'⟩ := hnext _ hphase (by decide) (by decide) (by decide) (by decide)
      exact ⟨hd, fun _ => by simp [remaining, longest, hp, hphase, hone], hc'⟩
    · obtain ⟨hd, hc'⟩ := hnext _ hphase (by decide) (by decide) (by decide) (by decide)
      exact ⟨hd, fun _ => by simp [remaining, longest, hp, hphase, hone], hc'⟩
    · have hless : d'.rounds.toNat + 1 = d.rounds.toNat := by
        have hne : d.rounds.toNat ≠ 1 := fun heq => hone (BitVec.eq_of_toNat_eq heq)
        rw [hrounds, BitVec.toNat_sub_of_le (by rw [BitVec.le_def]; exact hpos)]
        exact Nat.sub_add_cancel hpos
      have hne : d.rounds.toNat ≠ 1 := fun heq => hone (BitVec.eq_of_toNat_eq heq)
      refine ⟨?_, fun _ => ?_, ?_⟩
      · simp [dividing, Divider.busy, Divider.finishing, hphase]
      · simp only [remaining, longest, hp, hphase]
        omega
      · refine ⟨fun _ => by omega, ?_, ?_, ?_⟩ <;>
          (intro hx; rw [hphase] at hx; cases hx)
  | special =>
    rw [hp] at hphase hcount hpending hrsp
    have hpos := hc.count hp
    have hnot : d.specialCount ≠ 1 := by
      rintro heq
      simp [dividing, Divider.finishing, hp, heq] at h
    dsimp only at hphase hcount hpending hrsp
    rw [if_neg hnot] at hphase
    have hne : d.specialCount.toNat ≠ 1 := fun heq => hnot (BitVec.eq_of_toNat_eq heq)
    have hless : d'.specialCount.toNat + 1 = d.specialCount.toNat := by
      rw [hcount, BitVec.toNat_sub_of_le (by rw [BitVec.le_def]; exact hpos)]
      exact Nat.sub_add_cancel hpos
    have htwo : d.specialCount = 2 ↔ d'.specialCount = 1 := by
      rw [← BitVec.toNat_inj, ← BitVec.toNat_inj]
      show d.specialCount.toNat = 2 ↔ d'.specialCount.toNat = 1
      omega
    refine ⟨?_, fun hn => ?_, ?_⟩
    · rw [dividing_special hphase, Divider.nextFinish, hp, decide_eq_decide.2 htwo]
      rfl
    · simp only [remaining, longest, hp, hphase]
      omega
    · refine ⟨fun hi => ?_, fun _ => by omega, fun _ hyes => ?_, fun _ _ => ?_⟩
      · rw [hphase] at hi
        cases hi
      · rw [hpending] at hyes
        cases hyes
      · rw [hrsp, htag]
        split_ifs with hold
        · exact calculate_tag _ _ _ _ _ _ _ _
        · exact hc.tagged hp (by simpa using hold)

/-- A result that is due is of a division in progress. -/
theorem dividing_of_nextFinish (h : Divider.nextFinish d = true) : dividing d = true := by
  simp only [Divider.nextFinish, Bool.or_eq_true, Bool.and_eq_true, decide_eq_true_eq] at h
  rcases h with hp | ⟨hp, hc⟩
  · simp [dividing, Divider.busy, Divider.finishing, hp]
  · rw [dividing_special hp, hc]
    rfl

/-- A divider with no division and none started has none. -/
theorem divider_rest (h : dividing d = false) :
    dividing (Divider.step cpu602 d true false false q) = false ∧
      Counting (Divider.step cpu602 d true false false q) := by
  have hphase : (Divider.step cpu602 d true false false q).phase = .idle := by
    show Divider.nextPhase d true false false = .idle
    cases hp : d.phase with
    | idle | pack => simp [Divider.nextPhase, hp]
    | special =>
      rw [dividing_special hp, Bool.not_eq_false', decide_eq_true_eq] at h
      simp [Divider.nextPhase, hp, h]
    | _ => simp [dividing, Divider.busy, Divider.finishing, hp] at h
  exact ⟨by simp [dividing, Divider.busy, hphase],
    counting_of_phase (by rw [hphase]; decide) (by rw [hphase]; decide)⟩

/-- A division that starts. -/
theorem divider_start (h : dividing d = false) :
    dividing (Divider.step cpu602 d true false true q) = true ∧
      (Divider.step cpu602 d true false true q).tag = q.tag ∧
      remaining (Divider.step cpu602 d true false true q) = 7 ∧
      Counting (Divider.step cpu602 d true false true q) := by
  have hphase : (Divider.step cpu602 d true false true q).phase = .start := rfl
  have hload : (decide (d.phase = .idle) || Divider.finishing d) = true := by
    simpa [dividing, Divider.busy, or_iff_not_imp_left] using h
  refine ⟨by simp [dividing, Divider.busy, Divider.finishing, hphase], ?_,
    by simp [remaining, hphase],
    counting_of_phase (by rw [hphase]; decide) (by rw [hphase]; decide)⟩
  rw [Divider.step, Divider.load, hload]
  rfl

/-- **The divider's request over an edge.** -/
theorem inDivider_step (hc : Counting d) (hn : Divider.nextFinish d = false)
    (hs : start = true → dividing d = false) :
    inDivider (Divider.step cpu602 d true false start q) =
      inDivider d ++ if start then [q.tag] else [] := by
  cases hstart : start with
  | true =>
    have hd := hs hstart
    obtain ⟨hd', htag, -, -⟩ := divider_start cpu602 (q := q) hd
    rw [inDivider, inDivider, hd', htag, hd]
    rfl
  | false =>
    cases hd : dividing d with
    | true =>
      obtain ⟨hd', -, -⟩ := divider_step cpu602 (q := q) hd hc
      rw [inDivider, inDivider, hd', hn, hd, divider_tag cpu602 hd]
      rfl
    | false =>
      rw [inDivider, inDivider, (divider_rest cpu602 hd).1, hd]
      rfl

end DividerStep

/-! ## The stages -/

/-- What the stages leave to the rest of the edge. -/
theorem advance_rest (b : State) :
    (advance cpu602 s i b).divider = b.divider ∧ (advance cpu602 s i b).response = b.response ∧
      (advance cpu602 s i b).responseWrite = b.responseWrite ∧
      (advance cpu602 s i b).responseRead = b.responseRead ∧
      (advance cpu602 s i b).responseCount = b.responseCount ∧
      (advance cpu602 s i b).outstanding = b.outstanding := by
  unfold advance
  cases roundHold s <;> exact ⟨rfl, rfl, rfl, rfl, rfl, rfl⟩

section Stages

variable (cpu602) (hrun : (!i.rstN || i.flush) = false)

include hrun

/-- The divider of a run edge. -/
theorem step_divider : (step cpu602 s i).divider =
    Divider.step cpu602 s.divider true false (accept cpu602 s i && divideRequest i)
      (reqOperands cpu602 s i) := by
  have hin : i.rstN = true ∧ i.flush = false := by simpa using hrun
  unfold step
  rw [hrun, if_neg Bool.false_ne_true, (advance_rest _).1, hin.1, hin.2]

/-- The response queue of a run edge. -/
theorem step_queue :
    (step cpu602 s i).response =
        (fun k => if pushResponse s ∧ k = s.responseWrite then finish cpu602 s else s.response k) ∧
      (step cpu602 s i).responseWrite =
        (if pushResponse s then s.responseWrite + 1 else s.responseWrite) ∧
      (step cpu602 s i).responseRead =
        (if retire s i then s.responseRead + 1 else s.responseRead) ∧
      (step cpu602 s i).responseCount = count s.responseCount (pushResponse s) (retire s i) ∧
      (step cpu602 s i).outstanding =
        count s.outstanding (accept cpu602 s i) (retire s i) := by
  unfold step
  rw [hrun, if_neg Bool.false_ne_true]
  exact (advance_rest _).2

omit hrun in
/-- A held round counts down. -/
theorem roundWait_hold (hh : roundHold s = true) :
    s.addValid = true ∧ 1 ≤ s.roundWait.toNat ∧
      (s.roundWait - 1).toNat = s.roundWait.toNat - 1 := by
  simp only [roundHold, Bool.and_eq_true, decide_eq_true_eq] at hh
  have hpos : 1 ≤ s.roundWait.toNat := by
    by_contra hzero
    exact hh.2 (BitVec.eq_of_toNat_eq (by simpa using hzero))
  exact ⟨hh.1, hpos, BitVec.toNat_sub_of_le (by rw [BitVec.le_def]; exact hpos)⟩

/-- A held round stops the stages. -/
theorem step_hold (hh : roundHold s = true) :
    ((step cpu602 s i).addValid = s.addValid ∧ (step cpu602 s i).add = s.add ∧
      (step cpu602 s i).roundWait = s.roundWait - 1) ∧
    ((step cpu602 s i).alignedValid = s.alignedValid ∧
      (step cpu602 s i).aligned = s.aligned) ∧
    ((step cpu602 s i).multiplyValid = s.multiplyValid ∧
      (step cpu602 s i).multiply = s.multiply) ∧
    (step cpu602 s i).inputValid = s.inputValid ∧ (step cpu602 s i).input = s.input := by
  have hready : reqReady cpu602 s i = false := by simp [reqReady, hh]
  unfold step advance
  rw [hrun, hh, hready]
  exact ⟨⟨rfl, rfl, rfl⟩, ⟨rfl, rfl⟩, ⟨rfl, rfl⟩, rfl, rfl⟩

/-- The stages move on. -/
theorem step_go (hh : roundHold s = false) :
    ((step cpu602 s i).addValid = (s.alignedValid || Divider.nextFinish s.divider) ∧
      (step cpu602 s i).add = (if s.alignedValid then addNext cpu602 s.aligned
        else if Divider.nextFinish s.divider then Divider.roundInput s.divider else s.add) ∧
      (step cpu602 s i).roundWait = if (if s.alignedValid then alignedSlow cpu602 s
        else Divider.nextFinish s.divider && divSlow cpu602 s) then 2 else 0) ∧
    ((step cpu602 s i).alignedValid =
        ((s.inputValid && !dpMultiply cpu602 s.input) || s.multiplyValid) ∧
      (step cpu602 s i).aligned =
        (if s.inputValid && !dpMultiply cpu602 s.input then multiplyBasicNext cpu602 s
        else if s.multiplyValid then multiplyDoubleNext cpu602 s else s.aligned)) ∧
    ((step cpu602 s i).multiplyValid = inputDouble cpu602 s ∧
      (step cpu602 s i).multiply = if inputDouble cpu602 s then
        ⟨s.input.control, finite s.input, specialRsp cpu602 s.input, operands cpu602 s.input⟩
      else s.multiply) ∧
    (step cpu602 s i).inputValid = (accept cpu602 s i && !divideRequest i) ∧
      (step cpu602 s i).input = if reqReady cpu602 s i && !divideRequest i then
        reqOperands cpu602 s i else s.input := by
  unfold step advance
  rw [hrun, hh]
  exact ⟨⟨rfl, rfl, rfl⟩, ⟨rfl, rfl⟩, ⟨rfl, rfl⟩, rfl, rfl⟩

end Stages

/-- What an accepted request finds. -/
theorem accept_spec (h : accept cpu602 s i = true) : roundHold s = false ∧
    dividing s.divider = false ∧ inputDouble cpu602 s = false ∧
    (s.outstanding < 4 ∨ retire s i = true) := by
  simp only [accept, reqReady, Bool.and_eq_true, Bool.or_eq_true, Bool.not_eq_true',
    decide_eq_true_eq] at h
  obtain ⟨-, ⟨⟨⟨-, hhold⟩, hcredit⟩, hdiv⟩, hdouble⟩ := h
  refine ⟨hhold, ?_, hdouble, hcredit⟩
  rcases hdiv with hdiv | hdiv <;> simp [dividing, hdiv]

/-! ## The order of the requests -/

theorem addNext_req (q : AddInput) : (addNext cpu602 q).req = q.req := by
  unfold addNext adder exponentFields
  dsimp only
  split_ifs <;> rfl

/-- A division that gives its result finds the stages empty. -/
theorem empty_of_nextFinish (h : Inv cpu602 s l) (hn : Divider.nextFinish s.divider = true) :
    s.addValid = false ∧ s.alignedValid = false ∧ s.multiplyValid = false ∧
      s.inputValid = false := by
  have hwork := h.drain (dividing_of_nextFinish hn)
  have hzero : remaining s.divider = 0 := by
    simp only [Divider.nextFinish, Bool.or_eq_true, Bool.and_eq_true, decide_eq_true_eq] at hn
    rcases hn with hp | ⟨hp, hc⟩
    · simp [remaining, hp]
    · simp [remaining, hp, hc]
  rw [hzero, work] at hwork
  refine ⟨?_, ?_, ?_, ?_⟩ <;>
    (by_contra hv; rw [Bool.not_eq_false] at hv; simp [hv] at hwork)

/-- **The requests in flight over a run edge.**  What is accepted comes in behind them, and what
finishes was in front. -/
theorem inFlight_step (h : Inv cpu602 s l) (hrun : (!i.rstN || i.flush) = false) :
    inFlight s ++ (if accept cpu602 s i then [i.req.tag] else []) =
      (if pushResponse s then [(finish cpu602 s).tag] else []) ++ inFlight (step cpu602 s i) := by
  have hdiv := step_divider cpu602 (s := s) hrun
  cases hh : roundHold s with
  | true =>
    have hvalid : s.addValid = true := by
      simp only [roundHold, Bool.and_eq_true] at hh
      exact hh.1
    have hn : Divider.nextFinish s.divider = false := by
      by_contra hn
      rw [(empty_of_nextFinish h (by simpa using hn)).1] at hvalid
      cases hvalid
    have hacc : accept cpu602 s i = false := by
      by_contra hacc
      rw [(accept_spec (by simpa using hacc)).1] at hh
      cases hh
    have hpush : pushResponse s = false := by simp [pushResponse, hh]
    obtain ⟨⟨h1, h2, -⟩, ⟨h3, h4⟩, ⟨h5, h6⟩, h7, h8⟩ := step_hold cpu602 hrun hh
    rw [hacc, hpush, inFlight, inFlight, h1, h2, h3, h4, h5, h6, h7, h8, hdiv, hacc,
      inDivider_step cpu602 h.counting hn (by simp)]
    simp
  | false =>
    have hpush : pushResponse s = s.addValid := by simp [pushResponse, hh]
    obtain ⟨⟨h1, h2, -⟩, ⟨h3, h4⟩, ⟨h5, h6⟩, h7, h8⟩ := step_go cpu602 hrun hh
    have htag : s.addValid = true → (finish cpu602 s).tag = s.add.req.tag := h.tagged.add
    cases hn : Divider.nextFinish s.divider with
    | true =>
      obtain ⟨e1, e2, e3, e4⟩ := empty_of_nextFinish h hn
      have hd := dividing_of_nextFinish hn
      have hacc : accept cpu602 s i = false := by
        by_contra hacc
        rw [(accept_spec (by simpa using hacc)).2.1] at hd
        cases hd
      have hd' : dividing (step cpu602 s i).divider = false := by
        rw [hdiv, hacc, Bool.false_and, (divider_step cpu602 hd h.counting).1, hn]
        rfl
      have hreq : (Divider.roundInput s.divider).req.tag = s.divider.tag := by
        unfold Divider.roundInput exponentFields
        dsimp only
        split_ifs <;> rfl
      rw [hpush, inFlight, inFlight, inDivider, inDivider, hd', hd, h1, h2, h3, h5, h7, e1, e2,
        inputDouble, e3, e4, hacc, hn]
      simp [hreq]
    | false =>
      have hstart : (accept cpu602 s i && divideRequest i) = true → dividing s.divider = false :=
        fun hyes => (accept_spec (by
          rw [Bool.and_eq_true] at hyes
          exact hyes.1)).2.1
      have hdiv' : inDivider (step cpu602 s i).divider = inDivider s.divider ++
          if accept cpu602 s i && divideRequest i then [i.req.tag] else [] := by
        rw [hdiv, inDivider_step cpu602 h.counting hn hstart]
        rfl
      -- each stage goes on to the next one
      have padd : (if s.alignedValid then [s.aligned.req.tag] else []) =
          if (step cpu602 s i).addValid then [(step cpu602 s i).add.req.tag] else [] := by
        rw [h1, h2, hn, Bool.or_false]
        cases s.alignedValid with
        | true => rw [if_pos rfl, if_pos rfl, if_pos rfl, addNext_req]
        | false => rfl
      have paligned : (if s.multiplyValid then [s.multiply.req.tag] else []) ++
          (if s.inputValid && !dpMultiply cpu602 s.input then [s.input.tag] else []) =
          if (step cpu602 s i).alignedValid then [(step cpu602 s i).aligned.req.tag] else [] := by
        rw [h3, h4]
        cases hbasic : s.inputValid && !dpMultiply cpu602 s.input with
        | true =>
          have hno : s.multiplyValid = false := by
            by_contra hm
            rw [h.exclusive (by simpa using hm), Bool.false_and] at hbasic
            cases hbasic
          rw [hno]
          rfl
        | false => cases s.multiplyValid <;> rfl
      have pmultiply : (if inputDouble cpu602 s then [s.input.tag] else []) =
          if (step cpu602 s i).multiplyValid then [(step cpu602 s i).multiply.req.tag] else [] := by
        rw [h5, h6]
        cases inputDouble cpu602 s <;> rfl
      have pinput : (if accept cpu602 s i && !divideRequest i then [i.req.tag] else []) =
          if (step cpu602 s i).inputValid then [(step cpu602 s i).input.tag] else [] := by
        rw [h7, h8, accept]
        cases i.reqValid <;> cases reqReady cpu602 s i <;> cases divideRequest i <;> rfl
      have hinput : (if s.inputValid then [s.input.tag] else []) =
          (if s.inputValid && !dpMultiply cpu602 s.input then [s.input.tag] else []) ++
            if inputDouble cpu602 s then [s.input.tag] else [] := by
        rw [inputDouble]
        cases s.inputValid <;> cases dpMultiply cpu602 s.input <;> rfl
      have hfront : (if s.addValid then [s.add.req.tag] else []) =
          if pushResponse s then [(finish cpu602 s).tag] else [] := by
        rw [hpush]
        cases hv : s.addValid with
        | true => rw [if_pos rfl, if_pos rfl, htag hv]
        | false => rfl
      have hback : inDivider s.divider ++ (if accept cpu602 s i then [i.req.tag] else []) =
          (if accept cpu602 s i && !divideRequest i then [i.req.tag] else []) ++
            inDivider (step cpu602 s i).divider := by
        rw [hdiv']
        cases hacc : accept cpu602 s i with
        | true =>
          have hempty : inDivider s.divider = [] := by
            rw [inDivider, (accept_spec hacc).2.1]
            rfl
          rw [hempty]
          cases divideRequest i <;> rfl
        | false => simp
      rw [inFlight, inFlight, hfront, hinput, padd, List.append_assoc, hback, pinput, ← pmultiply,
        ← paligned]
      simp only [List.append_assoc]

/-! ## The response queue -/

theorem toNat_count {n : BitVec 3} (up : Bool) {down : Bool} (hup : n.toNat < 7)
    (hdown : down = true → 0 < n.toNat) :
    (count n up down).toNat + down.toNat = n.toNat + up.toNat := by
  have hone : (1 : BitVec 3).toNat = 1 := rfl
  cases up <;> cases down
  · rfl
  · have hpos := hdown rfl
    rw [count, if_neg (by decide), if_pos (by decide), BitVec.toNat_sub_of_le
      (by rw [BitVec.le_def]; exact hpos)]
    exact Nat.sub_add_cancel hpos
  · rw [count, if_pos (by decide), BitVec.toNat_add, hone, Nat.mod_eq_of_lt (by omega)]
    rfl
  · rfl

theorem length_queued (s : State) : (queued s).length = s.responseCount.toNat := by
  simp [queued]

/-- The credits bound the queue. -/
theorem count_le (h : Inv cpu602 s l) :
    s.responseCount.toNat + (inFlight s).length = s.outstanding.toNat := by
  have horder := congrArg List.length h.order
  have hout := h.outstanding
  rw [List.length_append, List.length_append, length_queued] at horder
  omega

/-- A reply that finishes has a place. -/
theorem place_of_push (h : Inv cpu602 s l) (hpush : pushResponse s = true) :
    s.responseCount.toNat < 4 := by
  have hcount := count_le h
  have hvalid : s.addValid = true := by
    simp only [pushResponse, Bool.and_eq_true] at hpush
    exact hpush.1
  have hone : 1 ≤ (inFlight s).length := by
    rw [inFlight, hvalid]
    simp
  have := h.credits
  omega

/-- A reply that leaves was held. -/
theorem held_of_retire (hret : retire s i = true) : 0 < s.responseCount.toNat := by
  simp only [retire, rspValid, Bool.and_eq_true, decide_eq_true_eq] at hret
  by_contra hzero
  exact hret.1.2 (BitVec.eq_of_toNat_eq (by simpa using hzero))

/-- **The queue over a run edge.** -/
theorem queued_step (h : Inv cpu602 s l) (hrun : (!i.rstN || i.flush) = false) :
    queued s ++ (if pushResponse s then [(finish cpu602 s).tag] else []) =
        (if retire s i then [(rsp s).tag] else []) ++ queued (step cpu602 s i) ∧
      (step cpu602 s i).responseWrite = (step cpu602 s i).responseRead +
        BitVec.ofNat 2 (step cpu602 s i).responseCount.toNat := by
  obtain ⟨hresponse, hwrite, hread, hcount, -⟩ := step_queue cpu602 (s := s) hrun
  have hle : s.responseCount.toNat ≤ 4 := by
    have := count_le h
    have := h.credits
    omega
  have hn := toNat_count (pushResponse s) (show s.responseCount.toNat < 7 by omega)
    (held_of_retire (s := s) (i := i))
  rw [← hcount] at hn
  -- the buffer with the new reply
  have hpushed : queued s ++ (if pushResponse s then [(finish cpu602 s).tag] else []) =
      (Buffer.entries (step cpu602 s i).response s.responseRead
        (s.responseCount.toNat + (pushResponse s).toNat)).map ArithRsp.tag := by
    rw [hresponse]
    cases hp : pushResponse s with
    | true =>
      have hlt := place_of_push h hp
      simp only [true_and, h.write, if_true, Bool.toNat_true]
      rw [Buffer.entries_write _ _ _ hlt, List.map_append]
      rfl
    | false => simp [queued]
  have hpop : (Buffer.entries (step cpu602 s i).response s.responseRead
      (s.responseCount.toNat + (pushResponse s).toNat)).map ArithRsp.tag =
      (if retire s i then [(rsp s).tag] else []) ++ queued (step cpu602 s i) := by
    rw [← hn, queued, hread]
    cases hr : retire s i with
    | true =>
      have hpos := held_of_retire hr
      have hkeep : (step cpu602 s i).response s.responseRead = s.response s.responseRead := by
        rw [hresponse]
        refine if_neg fun hnew => ?_
        have hne := Buffer.place_ne s.responseRead hpos (place_of_push h hnew.1)
        rw [← h.write, BitVec.add_zero] at hne
        exact hne hnew.2
      rw [if_pos rfl, if_pos rfl, Bool.toNat_true, Buffer.entries_cons, List.map_cons, hkeep]
      rfl
    | false => rfl
  refine ⟨hpushed.trans hpop, ?_⟩
  rw [hwrite, hread, h.write]
  have hcast := congrArg (BitVec.ofNat 2) hn
  rw [BitVec.ofNat_add, BitVec.ofNat_add] at hcast
  cases hp : pushResponse s <;> cases hr : retire s i <;> rw [hp, hr] at hcast
  · rw [if_neg Bool.false_ne_true, if_neg Bool.false_ne_true]
    exact congrArg (s.responseRead + ·) (by simpa using hcast.symm)
  · rw [if_neg Bool.false_ne_true, if_pos rfl, BitVec.add_assoc, BitVec.add_comm 1]
    exact congrArg (s.responseRead + ·) (by simpa using hcast.symm)
  · rw [if_pos rfl, if_neg Bool.false_ne_true, BitVec.add_assoc]
    exact congrArg (s.responseRead + ·) (by simpa using hcast.symm)
  · rw [if_pos rfl, if_pos rfl, BitVec.add_assoc, BitVec.add_assoc, BitVec.add_comm 1]
    exact congrArg (s.responseRead + ·) (by simpa using hcast.symm)

/-! ## The time the stages take -/

/-- **A run edge takes a cycle off the work of the stages**, but for what comes in. -/
theorem work_step (h : Inv cpu602 s l) (hrun : (!i.rstN || i.flush) = false)
    (hn : Divider.nextFinish s.divider = false)
    (hin : (accept cpu602 s i && !divideRequest i) = false) :
    work (step cpu602 s i) ≤ work s - 1 := by
  cases hh : roundHold s with
  | true =>
    obtain ⟨⟨h1, -, h2⟩, ⟨h3, -⟩, ⟨h4, -⟩, h5, -⟩ := step_hold cpu602 hrun hh
    obtain ⟨hvalid, hpos, hless⟩ := roundWait_hold hh
    rw [work, work, h1, h2, h3, h4, h5, hvalid, if_pos rfl, if_pos rfl, hless]
    omega
  | false =>
    obtain ⟨⟨h1, -, h2⟩, ⟨h3, -⟩, ⟨h4, -⟩, h5, -⟩ := step_go cpu602 hrun hh
    have hwait : (step cpu602 s i).roundWait.toNat ≤ 2 := by
      rw [h2]
      split_ifs <;> decide
    have hexcl := h.exclusive
    rw [work, work, h1, h3, h4, h5, hn, hin, inputDouble, Bool.or_false]
    cases s.addValid <;> cases s.alignedValid <;> cases hm : s.multiplyValid <;>
      cases hi : s.inputValid <;> cases dpMultiply cpu602 s.input <;> simp [hm, hi] at hexcl ⊢ <;>
      omega

/-- An accepted division finds little work before it. -/
theorem work_accept (hrun : (!i.rstN || i.flush) = false)
    (hacc : accept cpu602 s i = true) (hdiv : divideRequest i = true) :
    work (step cpu602 s i) ≤ 7 := by
  obtain ⟨hh, -, hdouble, -⟩ := accept_spec hacc
  obtain ⟨⟨h1, -, h2⟩, ⟨h3, -⟩, ⟨h4, -⟩, h5, -⟩ := step_go cpu602 hrun hh
  have hwait : (step cpu602 s i).roundWait.toNat ≤ 2 := by
    rw [h2]
    split_ifs <;> decide
  rw [work, h4, h5, hdouble, hdiv, Bool.not_true, Bool.and_false]
  simp only [Bool.false_eq_true, if_false]
  split_ifs <;> omega

/-- The time left of a division covers the work before it. -/
theorem drain_step (h : Inv cpu602 s l) (hrun : (!i.rstN || i.flush) = false)
    (hd : dividing (step cpu602 s i).divider = true) :
    work (step cpu602 s i) ≤ remaining (step cpu602 s i).divider := by
  have hdiv := step_divider cpu602 (s := s) hrun
  cases hstart : accept cpu602 s i && divideRequest i with
  | true =>
    obtain ⟨hacc, hreq⟩ := Bool.and_eq_true_iff.1 hstart
    rw [hdiv, hstart, (divider_start cpu602 (accept_spec hacc).2.1).2.2.1]
    exact work_accept hrun hacc hreq
  | false =>
    rw [hdiv, hstart] at hd ⊢
    cases hold : dividing s.divider with
    | false =>
      rw [(divider_rest cpu602 hold).1] at hd
      cases hd
    | true =>
      obtain ⟨hd', hrem, -⟩ := divider_step cpu602 (q := reqOperands cpu602 s i) hold
        h.counting
      rw [hd', Bool.not_eq_true'] at hd
      have hacc : accept cpu602 s i = false := by
        by_contra hacc
        rw [(accept_spec (by simpa using hacc)).2.1] at hold
        cases hold
      have hless := work_step h hrun hd (by rw [hacc]; rfl)
      have hleft := (hrem hd).1
      have hbound := h.drain hold
      omega

/-! ## Tags -/

/-- The reply of a rounding input is its own, when its special reply is. -/
theorem roundResponse_tag {r : RoundInput}
    (h : r.finite = false → r.conversion = false → r.specialRsp.tag = r.req.tag) :
    (roundResponse cpu602 r).tag = r.req.tag := by
  unfold roundResponse
  split_ifs with hf hc
  · unfold rounder roundFinite finishRounded
    dsimp only
    repeat' first
      | rfl
      | apply tag_ite
  · unfold finishConversion
    dsimp only
    repeat' first
      | rfl
      | apply tag_ite
  · exact h (by simpa using hf) (by simpa using hc)

theorem addNext_special (cpu602 : Bool) (q : AddInput) : (addNext cpu602 q).finite = q.finite ∧
    (addNext cpu602 q).conversion = q.conversion ∧
    (addNext cpu602 q).specialRsp = q.specialRsp := by
  unfold addNext adder exponentFields
  dsimp only
  split_ifs <;> exact ⟨rfl, rfl, rfl⟩

/-- What the divider hands on carries its tag. -/
theorem roundInput_tag {d : Divider.State} (hc : Counting d) (hn : Divider.nextFinish d = true) :
    (roundResponse cpu602 (Divider.roundInput d)).tag = d.tag := by
  have hreq : (Divider.roundInput d).req.tag = d.tag := by
    unfold Divider.roundInput exponentFields
    dsimp only
    split_ifs <;> rfl
  rw [← hreq]
  refine roundResponse_tag fun hf _ => ?_
  rw [hreq]
  have hp : d.phase = .special := by
    by_contra hp
    simp [Divider.roundInput, exponentFields, hp] at hf
  have htwo : d.specialCount.toNat = 2 := by
    simp only [Divider.nextFinish, hp, Bool.or_eq_true, Bool.and_eq_true, decide_eq_true_eq] at hn
    rcases hn with hn | ⟨-, hn⟩
    · cases hn
    · rw [hn]
      rfl
  have hpending : d.specialPending = false := by
    by_contra hyes
    have := hc.pending hp (by simpa using hyes)
    omega
  have hrsp : (Divider.roundInput d).specialRsp = d.specialRsp := by
    unfold Divider.roundInput exponentFields
    dsimp only
    split_ifs <;> rfl
  rw [hrsp]
  exact hc.tagged hp hpending

theorem tagged_step (h : Inv cpu602 s l) (hrun : (!i.rstN || i.flush) = false) :
    Tagged cpu602 (step cpu602 s i) := by
  have ht := h.tagged
  cases hh : roundHold s with
  | true =>
    obtain ⟨⟨h1, h2, -⟩, ⟨h3, h4⟩, ⟨h5, h6⟩, -⟩ := step_hold cpu602 hrun hh
    constructor
    · rw [h1, h2]
      exact ht.add
    · rw [h3, h4]
      exact ht.aligned
    · rw [h5, h6]
      exact ht.multiply
  | false =>
    obtain ⟨⟨h1, h2, -⟩, ⟨h3, h4⟩, ⟨h5, h6⟩, -⟩ := step_go cpu602 hrun hh
    constructor
    · rw [h1, h2]
      intro hv
      cases ha : s.alignedValid with
      | true =>
        obtain ⟨hf, hc, hs⟩ := addNext_special cpu602 s.aligned
        rw [if_pos rfl]
        refine roundResponse_tag ?_
        rw [hf, hc, hs, addNext_req]
        exact ht.aligned ha
      | false =>
        rw [ha, Bool.false_or] at hv
        rw [if_neg Bool.false_ne_true, hv, if_pos rfl, roundInput_tag h.counting hv]
        unfold Divider.roundInput exponentFields
        dsimp only
        split_ifs <;> rfl
    · rw [h3, h4]
      intro hv
      cases hbasic : s.inputValid && !dpMultiply cpu602 s.input with
      | true => exact fun hf hc => specialRsp_tag hf hc
      | false =>
        rw [hbasic, Bool.false_or] at hv
        rw [hv]
        exact fun hf _ => ht.multiply hv hf
    · rw [h5, h6]
      intro hv
      rw [hv]
      intro hf
      have hop : conversion s.input = false := by
        simp only [inputDouble, dpMultiply, Bool.and_eq_true] at hv
        simp only [conversion]
        cases hop : s.input.op <;> simp [hop, Op.multiplies] at hv ⊢
      exact specialRsp_tag hf hop

/-! ## The run -/

/-- After a reset or a flush nothing is held. -/
theorem inv_flush (cpu602 : Bool) (hrun : (!i.rstN || i.flush) = true) :
    Inv cpu602 (step cpu602 s i) (l.update cpu602 s i) := by
  have hphase : (step cpu602 s i).divider.phase = .idle := by
    unfold step
    rw [hrun, if_pos rfl]
    show Divider.nextPhase s.divider i.rstN i.flush _ = .idle
    rw [Divider.nextPhase, hrun, if_pos rfl]
  have hlog : l.update cpu602 s i = ⟨[], []⟩ := by rw [Log.update, hrun, if_pos rfl]
  have hd : dividing (step cpu602 s i).divider = false := by
    simp [dividing, Divider.busy, hphase]
  have hfields : (step cpu602 s i).addValid = false ∧ (step cpu602 s i).alignedValid = false ∧
      (step cpu602 s i).multiplyValid = false ∧ (step cpu602 s i).inputValid = false ∧
      (step cpu602 s i).roundWait = 0 ∧ (step cpu602 s i).responseCount = 0 ∧
      (step cpu602 s i).responseRead = 0 ∧ (step cpu602 s i).responseWrite = 0 ∧
      (step cpu602 s i).outstanding = 0 := by
    unfold step
    rw [hrun, if_pos rfl]
    exact ⟨rfl, rfl, rfl, rfl, rfl, rfl, rfl, rfl, rfl⟩
  obtain ⟨h1, h2, h3, h4, h5, h6, h7, h8, h9⟩ := hfields
  rw [hlog]
  refine ⟨?_, ?_, ?_, ?_, ?_, ?_, ?_, ⟨?_, ?_, ?_⟩, counting_of_phase (by rw [hphase]; decide)
    (by rw [hphase]; decide)⟩
  · rw [queued, inFlight, inDivider, h1, h2, h3, h4, h6, hd]
    rfl
  · rw [h9]
    rfl
  · rw [h9]
    decide
  · rw [h6, h7, h8]
    rfl
  · rw [h3]
    exact nofun
  · rw [hd]
    exact nofun
  · rw [h5]
    decide
  · rw [h1]
    exact nofun
  · rw [h2]
    exact nofun
  · rw [h3]
    exact nofun

/-- **A clock edge.** -/
theorem inv_step (h : Inv cpu602 s l) :
    Inv cpu602 (step cpu602 s i) (l.update cpu602 s i) := by
  cases hrun : (!i.rstN || i.flush) with
  | true => exact inv_flush cpu602 hrun
  | false =>
    have hlog : l.update cpu602 s i =
        { accepted := l.accepted ++ if accept cpu602 s i then [i.req.tag] else []
          left := l.left ++ if retire s i then [(rsp s).tag] else [] } := by
      rw [Log.update, hrun, if_neg Bool.false_ne_true]
    obtain ⟨hqueue, hwrite⟩ := queued_step h hrun
    have hflight := inFlight_step h hrun
    obtain ⟨-, -, -, -, hout⟩ := step_queue cpu602 (s := s) hrun
    have hcredit : s.outstanding.toNat ≤ 4 := h.credits
    have hheld : retire s i = true → 0 < s.outstanding.toNat := fun hr => by
      have := held_of_retire hr
      have := count_le h
      omega
    have hn := toNat_count (accept cpu602 s i) (show s.outstanding.toNat < 7 by omega) hheld
    rw [← hout] at hn
    have horder : l.accepted ++ (if accept cpu602 s i then [i.req.tag] else []) =
        l.left ++ (if retire s i then [(rsp s).tag] else []) ++ queued (step cpu602 s i) ++
          inFlight (step cpu602 s i) := by
      rw [h.order, List.append_assoc, hflight, ← List.append_assoc, List.append_assoc l.left, hqueue,
        ← List.append_assoc l.left]
    rw [hlog]
    refine ⟨horder, ?_, ?_, hwrite, ?_, drain_step h hrun, ?_, tagged_step h hrun, ?_⟩
    · have hold := h.outstanding
      have hleft : ∀ (b : Bool) (t : CompletionTag), (if b then [t] else []).length = b.toNat := by
        intro b t
        cases b <;> rfl
      rw [List.length_append, List.length_append, hleft, hleft]
      omega
    · cases hacc : accept cpu602 s i with
      | false =>
        rw [hacc] at hn
        have : (false : Bool).toNat = 0 := rfl
        omega
      | true =>
        rw [hacc, Bool.toNat_true] at hn
        rcases (accept_spec hacc).2.2.2 with hlt | hret
        · have : s.outstanding.toNat < 4 := hlt
          omega
        · rw [hret, Bool.toNat_true] at hn
          omega
    · cases hh : roundHold s with
      | true =>
        obtain ⟨-, -, ⟨h5, -⟩, h7, -⟩ := step_hold cpu602 hrun hh
        rw [h5, h7]
        exact h.exclusive
      | false =>
        obtain ⟨-, -, ⟨h5, -⟩, h7, -⟩ := step_go cpu602 hrun hh
        rw [h5, h7]
        intro hdouble
        cases hacc : accept cpu602 s i with
        | false => rfl
        | true =>
          rw [(accept_spec hacc).2.2.1] at hdouble
          cases hdouble
    · cases hh : roundHold s with
      | true =>
        obtain ⟨⟨-, -, h2⟩, -⟩ := step_hold cpu602 hrun hh
        have hold := h.wait
        rw [h2, (roundWait_hold hh).2.2]
        omega
      | false =>
        obtain ⟨⟨-, -, h2⟩, -⟩ := step_go cpu602 hrun hh
        rw [h2]
        split_ifs <;> decide
    · rw [step_divider cpu602 hrun]
      cases hstart : accept cpu602 s i && divideRequest i with
      | true =>
        have hacc := (Bool.and_eq_true_iff.1 hstart).1
        exact (divider_start cpu602 (accept_spec hacc).2.1).2.2.2
      | false =>
        cases hold : dividing s.divider with
        | true => exact (divider_step cpu602 hold h.counting).2.2
        | false => exact (divider_rest cpu602 hold).2

/-! ## What is announced -/

/-- **A finish was announced the cycle before**, by its tag. -/
theorem announced_step (h : Inv cpu602 s l) (tag : CompletionTag) :
    (pushResponse (step cpu602 s i) = true ∧ (finish cpu602 (step cpu602 s i)).tag = tag) ↔
      (nextFinishValid cpu602 s i = true ∧ nextFinishTag s = tag) := by
  cases hrun : (!i.rstN || i.flush) with
  | true =>
    have hnone : pushResponse (step cpu602 s i) = false := by
      unfold step
      rw [hrun, if_pos rfl]
      rfl
    have hquiet : nextFinishValid cpu602 s i = false := by
      rw [nextFinishValid]
      cases hr : i.rstN with
      | false => rfl
      | true =>
        rw [hr, Bool.not_true, Bool.false_or] at hrun
        rw [hrun]
        rfl
    simp [hnone, hquiet]
  | false =>
    have hin : i.rstN = true ∧ i.flush = false := by simpa using hrun
    have htag := (inv_step (i := i) h).tagged.add
    rw [nextFinishValid, hin.1, hin.2, Bool.not_false, Bool.true_and, Bool.true_and]
    cases hh : roundHold s with
    | true =>
      obtain ⟨⟨h1, h2, h3⟩, -⟩ := step_hold cpu602 hrun hh
      have hvalid : s.addValid = true ∧ s.roundWait ≠ 0 := by
        simpa [roundHold] using hh
      have hn : Divider.nextFinish s.divider = false := by
        by_contra hn
        rw [(empty_of_nextFinish h (by simpa using hn)).1] at hvalid
        exact absurd hvalid.1 (by decide)
      have hlast : pushResponse (step cpu602 s i) = decide (s.roundWait = 1) := by
        rw [pushResponse, roundHold, h1, h3, hvalid.1]
        have hall : ∀ w : BitVec 2, w ≠ 0 →
            (true && !(true && decide (w - 1 ≠ 0))) = decide (w = 1) := by decide
        exact hall _ hvalid.2
      have hreq : pushResponse (step cpu602 s i) = true →
          (finish cpu602 (step cpu602 s i)).tag = s.add.req.tag := by
        intro _
        rw [finish, htag (by rw [h1]; exact hvalid.1), h2]
      rw [nextFinishTag, hh, if_pos rfl, hn, ← hlast]
      simp only [Bool.not_true, Bool.and_false, Bool.false_and, Bool.or_false, Bool.true_and,
        Bool.false_or]
      exact and_congr_right fun hp => by rw [hreq hp]
    | false =>
      obtain ⟨⟨h1, h2, h3⟩, -⟩ := step_go cpu602 hrun hh
      rw [nextFinishTag, hh, if_neg Bool.false_ne_true]
      simp only [Bool.not_false, Bool.and_true, Bool.false_and, Bool.or_false]
      cases ha : s.alignedValid with
      | true =>
        have hn : Divider.nextFinish s.divider = false := by
          by_contra hn
          rw [(empty_of_nextFinish h (by simpa using hn)).2.1] at ha
          cases ha
        have hpush : pushResponse (step cpu602 s i) = !alignedSlow cpu602 s := by
          rw [pushResponse, roundHold, h1, h3, ha]
          cases alignedSlow cpu602 s <;> rfl
        have hreq : (finish cpu602 (step cpu602 s i)).tag = s.aligned.req.tag := by
          rw [finish, htag (by rw [h1, ha]; rfl), h2, ha, if_pos rfl, addNext_req]
        rw [hpush, hreq, hn, if_pos rfl]
        simp
      | false =>
        cases hn : Divider.nextFinish s.divider with
        | true =>
          have hpush : pushResponse (step cpu602 s i) = !divSlow cpu602 s := by
            rw [pushResponse, roundHold, h1, h3, ha, hn]
            cases divSlow cpu602 s <;> rfl
          have hreq : (finish cpu602 (step cpu602 s i)).tag = s.divider.tag := by
            rw [finish, h2, ha, hn, if_neg Bool.false_ne_true, if_pos rfl]
            exact roundInput_tag h.counting hn
          rw [hpush, hreq, if_neg Bool.false_ne_true]
          simp
        | false =>
          have hpush : pushResponse (step cpu602 s i) = false := by
            rw [pushResponse, h1, ha, hn]
            rfl
          rw [hpush]
          simp

/-! ## Progress -/

/-- The cycles before the oldest request in flight finishes, at most. -/
def rank (s : State) : ℕ :=
  if s.addValid then s.roundWait.toNat
  else if s.alignedValid then 4
  else if s.multiplyValid then 5
  else if s.inputValid then 6
  else if dividing s.divider then 7 + longest s.divider
  else 0

theorem rank_lt (s : State) : rank s < 200 := by
  have hlong : longest s.divider ≤ 100 := by
    have hr := s.divider.rounds.isLt
    have hc := s.divider.specialCount.isLt
    unfold longest
    cases s.divider.phase <;> dsimp only <;> omega
  have hw := s.roundWait.isLt
  unfold rank
  split_ifs <;> omega

/-- **The oldest request in flight comes nearer**, or it finishes. -/
theorem rank_step (h : Inv cpu602 s l) (hrun : (!i.rstN || i.flush) = false)
    (hpush : pushResponse s = false) (hsome : inFlight s ≠ []) :
    rank (step cpu602 s i) < rank s := by
  have hdiv := step_divider cpu602 (s := s) hrun
  cases hh : roundHold s with
  | true =>
    obtain ⟨⟨h1, -, h3⟩, -⟩ := step_hold cpu602 hrun hh
    obtain ⟨hvalid, hpos, hless⟩ := roundWait_hold hh
    rw [rank, rank, h1, hvalid, if_pos rfl, if_pos rfl, h3, hless]
    omega
  | false =>
    have hno : s.addValid = false := by simpa [pushResponse, hh] using hpush
    obtain ⟨⟨h1, -, h3⟩, ⟨h4, -⟩, ⟨h5, -⟩, h6, -⟩ := step_go cpu602 hrun hh
    have hwait : (step cpu602 s i).roundWait.toNat ≤ 2 := by
      rw [h3]
      split_ifs <;> decide
    cases hn : Divider.nextFinish s.divider with
    | true =>
      obtain ⟨-, e2, e3, e4⟩ := empty_of_nextFinish h hn
      rw [rank, rank, h1, e2, hn, hno, e3, e4, dividing_of_nextFinish hn]
      simp only [Bool.or_true, if_true, Bool.false_eq_true, if_false]
      omega
    | false =>
      rw [rank, rank, h1, h4, h5, h6, hn, hno, Bool.or_false, inputDouble]
      cases ha : s.alignedValid with
      | true =>
        simp only [if_true, Bool.false_eq_true, if_false]
        omega
      | false =>
        cases hm : s.multiplyValid with
        | true => simp
        | false =>
          cases hi : s.inputValid with
          | true => cases dpMultiply cpu602 s.input <;> simp
          | false =>
            -- only a division is in flight
            have hold : dividing s.divider = true := by
              by_contra hold
              rw [Bool.not_eq_true] at hold
              rw [inFlight, inDivider, hno, ha, hm, hi, hold] at hsome
              exact hsome rfl
            have hacc : accept cpu602 s i = false := by
              by_contra hacc
              rw [(accept_spec (by simpa using hacc)).2.1] at hold
              cases hold
            obtain ⟨hd', hlong, -⟩ := divider_step cpu602
              (q := reqOperands cpu602 s i) hold h.counting
            have hless := (hlong hn).2
            have hdiv' : (step cpu602 s i).divider =
                Divider.step cpu602 s.divider true false false (reqOperands cpu602 s i) := by
              rw [hdiv, hacc]
              rfl
            rw [hdiv', hd', hn, hold, hacc]
            simp only [Bool.false_and, Bool.or_false, Bool.false_eq_true, if_false, Bool.not_false,
              if_true]
            omega

end Step

/-! ## Whole runs -/

section Run

variable {cpu602 : Bool} {r : Clocked.Run (machine cpu602)}

/-- The log of a run. -/
def log (r : Clocked.Run (machine cpu602)) : ℕ → Log :=
  r.history ⟨[], []⟩ fun l s i => l.update cpu602 s i

theorem inv_run (n : ℕ) : Inv cpu602 (r.state n) (log r n) := by
  refine Clocked.Run.invariant_history (A := fun _ _ => True) (I := Inv cpu602) ?_
    (fun _ _ _ h _ => inv_step h) (fun _ _ => trivial)
  rintro s ⟨s₀, i, hreset, rfl⟩
  have hrun : (!i.rstN || i.flush) = true := by rw [hreset]; rfl
  have hstart := inv_flush cpu602 (s := s₀) (l := ⟨[], []⟩) hrun
  rwa [Log.update, hrun, if_pos rfl] at hstart

/-- No reset and no flush from the `n`th edge on. -/
def Calm (r : Clocked.Run (machine cpu602)) (n : ℕ) : Prop :=
  ∀ m, n ≤ m → (r.input m).rstN = true ∧ (r.input m).flush = false

/-- The replies that have finished, gone or not. -/
def finished (r : Clocked.Run (machine cpu602)) (n : ℕ) : ℕ :=
  (log r n).left.length + (r.state n).responseCount.toNat

theorem finished_le (n : ℕ) :
    finished r n + (inFlight (r.state n)).length = (log r n).accepted.length := by
  have hcount := count_le (inv_run (r := r) n)
  have hout := (inv_run (r := r) n).outstanding
  unfold finished
  omega

section Calm

variable {n m : ℕ} (hcalm : Calm r n) (hm : n ≤ m)

include hcalm hm

theorem log_calm : log r (m + 1) =
    { accepted := (log r m).accepted ++
        if accept cpu602 (r.state m) (r.input m) then [(r.input m).req.tag] else []
      left := (log r m).left ++
        if retire (r.state m) (r.input m) then [(rsp (r.state m)).tag] else [] } := by
  show Log.update cpu602 (log r m) (r.state m) (r.input m) = _
  rw [Log.update, (hcalm m hm).1, (hcalm m hm).2]
  rfl

theorem left_calm : (log r (m + 1)).left.length =
    (log r m).left.length + (retire (r.state m) (r.input m)).toNat := by
  rw [log_calm hcalm hm, List.length_append]
  cases retire (r.state m) (r.input m) <;> rfl

theorem finished_calm : finished r (m + 1) = finished r m + (pushResponse (r.state m)).toNat := by
  have hinv := inv_run (r := r) m
  have hrun : (!(r.input m).rstN || (r.input m).flush) = false := by
    rw [(hcalm m hm).1, (hcalm m hm).2]
    rfl
  have hleft := left_calm hcalm hm
  have hqueue := congrArg List.length (queued_step hinv hrun).1
  have hlength : ∀ (b : Bool) (t : CompletionTag), (if b then [t] else []).length = b.toNat := by
    intro b t
    cases b <;> rfl
  rw [List.length_append, List.length_append, hlength, hlength, length_queued, length_queued]
    at hqueue
  have hstate : r.state (m + 1) = step cpu602 (r.state m) (r.input m) := rfl
  unfold finished
  rw [hleft, hstate]
  omega

theorem accepted_calm : (log r n).accepted <+: (log r m).accepted := by
  induction m, hm using Nat.le_induction with
  | base => exact List.prefix_refl _
  | succ m hm ih =>
    rw [log_calm hcalm hm]
    exact ih.trans (List.prefix_append _ _)

theorem left_mono : (log r n).left.length ≤ (log r m).left.length := by
  induction m, hm using Nat.le_induction with
  | base => exact Nat.le_refl _
  | succ m hm ih =>
    rw [left_calm hcalm hm]
    omega

theorem finished_mono : finished r n ≤ finished r m := by
  induction m, hm using Nat.le_induction with
  | base => exact Nat.le_refl _
  | succ m hm ih =>
    rw [finished_calm hcalm hm]
    omega

end Calm

/-- **What has been accepted finishes.** -/
theorem finishes {n : ℕ} (hcalm : Calm r n) :
    ∃ m, n ≤ m ∧ (log r n).accepted.length ≤ finished r m := by
  set total := (log r n).accepted.length with htotal
  have hleads : LeadsTo (fun m => n ≤ m) fun m => n ≤ m ∧ total ≤ finished r m := by
    refine LeadsTo.of_rank (fun m => (total - finished r m) * 200 + rank (r.state m)) ?_
    intro m hm
    by_cases hdone : total ≤ finished r m
    · exact ⟨m, Nat.le_refl m, .inl ⟨hm, hdone⟩⟩
    refine ⟨m + 1, Nat.le_succ m, .inr ⟨Nat.le_succ_of_le hm, ?_⟩⟩
    have hrun : (!(r.input m).rstN || (r.input m).flush) = false := by
      rw [(hcalm m hm).1, (hcalm m hm).2]
      rfl
    have hfinished := finished_calm hcalm hm
    have hbound := rank_lt (r.state (m + 1))
    cases hpush : pushResponse (r.state m) with
    | true =>
      rw [hpush, Bool.toNat_true] at hfinished
      omega
    | false =>
      rw [hpush, Bool.toNat_false] at hfinished
      have hsome : inFlight (r.state m) ≠ [] := by
        intro hnone
        have hall := finished_le (r := r) m
        have hprefix := (accepted_calm hcalm hm).length_le
        rw [hnone, List.length_nil] at hall
        omega
      have hless := rank_step (inv_run m) hrun hpush hsome
      have hstate : r.state (m + 1) = step cpu602 (r.state m) (r.input m) := rfl
      rw [← hstate] at hless
      omega
  obtain ⟨m, hm, hdone⟩ := hleads n (Nat.le_refl n)
  exact ⟨m, hm, hdone.2⟩

/-- **What has finished leaves**, where the consumer keeps taking. -/
theorem leaves_of_finished {n total : ℕ} (hcalm : Calm r n)
    (htaker : Recurs fun m => (r.input m).rspReady = true) (hdone : total ≤ finished r n) :
    ∃ m, n ≤ m ∧ total ≤ (log r m).left.length := by
  have hleads : LeadsTo (fun m => n ≤ m) fun m => n ≤ m ∧ total ≤ (log r m).left.length := by
    refine LeadsTo.of_rank (fun m => total - (log r m).left.length) ?_
    intro m hm
    obtain ⟨k, hk, hready⟩ := htaker m
    have hcalm' : Calm r m := fun j hj => hcalm j (Nat.le_trans hm hj)
    have hmono := left_mono hcalm' hk
    by_cases hall : total ≤ (log r k).left.length
    · exact ⟨k, hk, .inl ⟨Nat.le_trans hm hk, hall⟩⟩
    refine ⟨k + 1, Nat.le_succ_of_le hk, .inr ⟨Nat.le_succ_of_le (Nat.le_trans hm hk), ?_⟩⟩
    have hheld := finished_mono hcalm (Nat.le_trans hm hk)
    have hret : retire (r.state k) (r.input k) = true := by
      have hne : (r.state k).responseCount ≠ 0 := by
        intro hzero
        unfold finished at hheld hdone
        rw [hzero] at hheld
        have : (0 : BitVec 3).toNat = 0 := rfl
        omega
      rw [retire, rspValid, (hcalm' k hk).1, (hcalm' k hk).2, hready, decide_eq_true hne]
      rfl
    rw [left_calm hcalm' hk, hret, Bool.toNat_true]
    omega
  obtain ⟨m, hm, hdone⟩ := hleads n (Nat.le_refl n)
  exact ⟨m, hm, hdone.2⟩

/-- What the unit shows at the `n`th cycle of a run. -/
structure OneReply (r : Clocked.Run (machine cpu602)) (n : ℕ) : Prop where
  /-- The queue holds four replies at most, and a new one takes none of their places. -/
  bounded : (r.state n).responseCount.toNat ≤ 4 ∧ (pushResponse (r.state n) = true →
    ∀ k, k < (r.state n).responseCount.toNat →
      (r.state n).responseRead + BitVec.ofNat 2 k ≠ (r.state n).responseWrite)
  /-- The requests since the last flush: those answered, then those queued, then the rest. -/
  order : (log r n).accepted = (log r n).left ++ queued (r.state n) ++ inFlight (r.state n)
  /-- A flush leaves nothing behind. -/
  flush : (r.input n).rstN = false ∨ (r.input n).flush = true →
    log r (n + 1) = ⟨[], []⟩ ∧ queued (r.state (n + 1)) = [] ∧ inFlight (r.state (n + 1)) = []
  /-- A division hands its result over when nothing else is on its way to the rounder. -/
  apart : Divider.nextFinish (r.state n).divider = true →
    inFlight (r.state n) = [(r.state n).divider.tag] ∧ (r.state n).alignedValid = false
  /-- A finish was announced the cycle before, and what is announced finishes. -/
  announced : (r.input (n + 1)).rstN = true → (r.input (n + 1)).flush = false → ∀ tag,
    (finishValid (r.state (n + 1)) (r.input (n + 1)) = true ∧
        (finish cpu602 (r.state (n + 1))).tag = tag) ↔
      (nextFinishValid cpu602 (r.state n) (r.input n) = true ∧ nextFinishTag (r.state n) = tag)
  /-- Every request accepted is answered, where no flush comes and replies are taken. -/
  leaves : Calm r n → (Recurs fun m => (r.input m).rspReady = true) →
    ∃ m, n ≤ m ∧ (log r n).accepted <+: (log r m).left

/-- **One reply for each request**, in order and announced one cycle ahead. -/
theorem one_reply (r : Clocked.Run (machine cpu602)) (n : ℕ) : OneReply r n := by
  have hinv := inv_run (r := r) n
  have hstate : r.state (n + 1) = step cpu602 (r.state n) (r.input n) := rfl
  constructor
  · have hcount := count_le hinv
    have hcredits := hinv.credits
    refine ⟨by omega, fun hpush k hk => ?_⟩
    rw [hinv.write]
    exact Buffer.place_ne _ hk (place_of_push hinv hpush)
  · exact hinv.order
  · intro hstop
    have hrun : (!(r.input n).rstN || (r.input n).flush) = true := by
      rcases hstop with h | h <;> simp [h]
    have hlog : log r (n + 1) = ⟨[], []⟩ := by
      show Log.update cpu602 (log r n) (r.state n) (r.input n) = _
      rw [Log.update, hrun, if_pos rfl]
    have hnone := (inv_run (r := r) (n + 1)).order
    rw [hlog] at hnone
    have hempty := List.append_eq_nil_iff.1 hnone.symm
    exact ⟨hlog, (List.append_eq_nil_iff.1 hempty.1).2, hempty.2⟩
  · intro hn
    obtain ⟨h1, h2, h3, h4⟩ := empty_of_nextFinish hinv hn
    refine ⟨?_, h2⟩
    rw [inFlight, inDivider, h1, h2, h3, h4, dividing_of_nextFinish hn]
    rfl
  · intro hr hf tag
    rw [finishValid, hr, hf, Bool.not_false, Bool.true_and, Bool.true_and, hstate]
    exact announced_step hinv tag
  · intro hcalm htaker
    obtain ⟨m, hm, hdone⟩ := finishes hcalm
    obtain ⟨k, hk, hall⟩ := leaves_of_finished (fun j hj => hcalm j (Nat.le_trans hm hj)) htaker
      hdone
    have horder := (inv_run (r := r) k).order
    have hleft : (log r k).left <+: (log r k).accepted := by
      rw [horder, List.append_assoc]
      exact List.prefix_append _ _
    exact ⟨k, Nat.le_trans hm hk, List.prefix_of_prefix_length_le
      (accepted_calm hcalm (Nat.le_trans hm hk)) hleft hall⟩

end Run

end Arith
end Fpu
end SloPPC603
