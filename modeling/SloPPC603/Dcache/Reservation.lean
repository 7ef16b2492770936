import SloPPC603.Dcache.Response
import SloPPC603.Dcache.Snoop

/-!
# Reservations

A `stwcx.` succeeds only on a reservation a `lwarx` of its line has set and
nothing has cancelled.  The reservation register is set in the lookup of the
`lwarx`, which may be long before its read; a snoop in between is not retried and
does not cancel it, since the read comes after it.  What the reservation promises
is therefore counted from the read: the cycle of the lookup for a hit, the first
cycle past the address tenure's retry window for a read on the bus.

* `LwarxReads`, `LwarxAnswers`, `StwcxChecks`, `Cancelled` — the events of a run.
* `Unread`, `Claimed`, `lwarx_progress` — a `lwarx` before and after its read.
* `Link`, `link_succ` — what a valid reservation stands for.
* `stwcx_sound` — the whole promise.
-/

namespace SloPPC603
namespace Dcache

open Clocked Clocked.Run

variable {cfg : Config} {s : State} {i : Input}

/-! ## Snoops that cancel -/

/-- A snoop of kill class, or of flush class other than a burst read. -/
def Cancelling (tt : BitVec 5) (burst : Bool) : Prop :=
  classOf tt burst = .kill ∨ (classOf tt burst = .flush ∧ tt ≠ TT.read ∧ tt ≠ TT.readAtom)

theorem snpCancelType_iff : snpCancelType s = true ↔ Cancelling s.snpTt s.snpBurst := by
  have hlow : ∀ tt : BitVec 5,
      tt.setWidth 4 = TT.read.setWidth 4 ↔ tt = TT.read ∨ tt = TT.readAtom := by decide
  rw [snpCancelType, Bool.or_eq_true, Bool.and_eq_true, decide_eq_true_iff, decide_eq_true_iff,
    decide_eq_true_iff, ne_eq, hlow, not_or]
  rfl

/-! ## The events of a run -/

section Events

variable (r : Run (machine cfg))

/-- How many requests were taken in the first `n` cycles: it numbers the request
in progress. -/
def served (n : ℕ) : ℕ := r.history 0 (fun c s i => c + (reqAccept cfg s i).toNat) n

theorem served_succ (n : ℕ) :
    served r (n + 1) = served r n + (reqAccept cfg (r.state n) (r.input n)).toNat := rfl

theorem served_mono {m n : ℕ} (h : m ≤ n) : served r m ≤ served r n := by
  induction n with
  | zero =>
    obtain rfl : m = 0 := by omega
    exact le_rfl
  | succ n ih =>
    rcases Nat.lt_or_ge m (n + 1) with hlt | hge
    · exact (ih (by omega)).trans (by rw [served_succ]; omega)
    · obtain rfl : m = n + 1 := by omega
      exact le_rfl

/-- Waiting for a read on the bus. -/
def ReadWait (s : State) : Prop := s.state = .fillWait ∨ s.state = .sreadWait

instance (s : State) : Decidable (ReadWait s) := inferInstanceAs (Decidable (_ ∨ _))

/-- A `lwarx` waiting for its read whose address tenure is past its retry window,
or whose read brings a beat. -/
def AcksRead (n : ℕ) : Prop :=
  (r.state n).reqOp = .lwarx ∧ ReadWait (r.state n) ∧
    ((r.input n).busReqAcked = true ∨ (r.input n).busRdValid = true)

/-- A `lwarx` reads its line in cycle `n`: in its lookup, or in the first cycle of
its bus read past the retry window. -/
def LwarxReads (n line : ℕ) : Prop :=
  (r.state n).reqOp = .lwarx ∧ reqLine (r.state n) = line ∧
    ((lkGo cfg (r.state n) (r.input n) = true ∧ (lk cfg (r.state n) (r.input n)).read = true) ∨
      (AcksRead r n ∧ ∀ x < n, served r x = served r n → ¬ AcksRead r x))

/-- A `lwarx` is answered by the edge of cycle `n`, without error unless a beat of
its bus read brought one on this edge. -/
def LwarxAnswers (n line : ℕ) : Prop :=
  (r.state n).reqOp = .lwarx ∧ reqLine (r.state n) = line ∧
    (r.state (n + 1)).rsp.valid = true ∧
    ((r.state (n + 1)).rsp.error = false ∨
      ((r.input n).busRdValid = true ∧ (r.input n).busRdError = true))

/-- A `stwcx.` is performed: its lookup checks the reservation and gives it up. -/
def StwcxPerformed (n : ℕ) : Prop :=
  lkGo cfg (r.state n) (r.input n) = true ∧ (r.state n).reqOp = .stwcx

/-- A `stwcx.` to the line finds its reservation in cycle `n`. -/
def StwcxChecks (n line : ℕ) : Prop :=
  StwcxPerformed r n ∧ resvMatch (r.state n) = true ∧ reqLine (r.state n) = line

/-- A cancelling snoop of the line is answered without a retry. -/
def Cancelled (n line : ℕ) : Prop :=
  (r.state n).snpValid = true ∧ (r.state n).snpProbe = false ∧
    Cancelling (r.state n).snpTt (r.state n).snpBurst ∧ snpLine (r.state n) = line ∧
    sArtry cfg (r.state n) (r.input n) = false

/-- What ends the promise of a reservation of the line. -/
def Breaks (line n : ℕ) : Prop := StwcxPerformed r n ∨ Cancelled r n line

/-- A snoop of the line, of a class the cache acts on, is retried if there is one. -/
def SnoopRetried (n line : ℕ) : Prop :=
  (r.state n).snpValid = true → snpLine (r.state n) = line → snpClass (r.state n) ≠ .none →
    sArtry cfg (r.state n) (r.input n) = true

/-- What the bus promises of the read of a `lwarx`: past its retry window it stays
past it, and so does a read that has brought a beat. -/
structure ReadPort (N : ℕ) : Prop where
  running : r.Obeys OutOfReset N
  held : ∀ n, n + 1 < N → AcksRead r n → ReadWait (r.state (n + 1)) →
    (r.input (n + 1)).busReqAcked = true

end Events

/-! ## A `lwarx` before and after its read -/

section Progress

variable (r : Run (machine cfg))

/-- The `lwarx` in progress has still to read. -/
structure Unread (n : ℕ) : Prop where
  op : (r.state n).reqOp = .lwarx
  notYet : ∀ x < n, served r x = served r n → ¬ AcksRead r x
  unsent : (r.state n).rspSent = false
  plan : (r.state n).plan.fill = true ∨ (r.state n).plan.sread = true
  at' : (phaseOf (r.state n).state = some .cobRead) ∨ (r.state n).state = .fillReq ∨
    (r.state n).state = .sreadReq ∨
      (ReadWait (r.state n) ∧ ((r.state n).state = .fillWait → (r.state n).stepIdx = 0))

/-- The operation in progress has read and holds its line against snoops. -/
def Claimed (n : ℕ) : Prop :=
  (r.state n).state = .readData ∨ (r.state n).state = .install ∨
    (ReadWait (r.state n) ∧ ∃ m, n = m + 1 ∧ AcksRead r m)

variable {r}

theorem acked_of_claimed {N n : ℕ} (hp : ReadPort r N) (hn : n < N) (h : Claimed r n)
    (hw : ReadWait (r.state n)) : (r.input n).busReqAcked = true := by
  rcases h with h | h | ⟨-, m, rfl, hm⟩
  · rcases hw with hw | hw <;> simp [h] at hw
  · rcases hw with hw | hw <;> simp [h] at hw
  · exact hp.held m hn hm hw

/-- **A line read is a line claimed**: the snoop logic retries snoops of it. -/
theorem fsmClaims_of_claimed {N n : ℕ} (hp : ReadPort r N) (hn : n < N) (h : Claimed r n) :
    fsmOwns (r.state n) = true ∧ fsmClaims (r.state n) (r.input n) = true := by
  have hack := acked_of_claimed hp hn h
  rcases h with h | h | ⟨h | h, -⟩
  · simp [fsmOwns, fsmClaims, h]
  · simp [fsmOwns, fsmClaims, h]
  · simp [fsmOwns, fsmClaims, h, hack (Or.inl h)]
  · simp [fsmOwns, fsmClaims, h, hack (Or.inr h)]

/-- The plan of a `lwarx` that has still to read on the bus. -/
theorem lwarx_plan {p : Plan} (h : Planned .lwarx p) :
    p = { cob := p.cob, fill := true, install := true } ∨ p = { cob := p.cob, sread := true } ∨
      p = { cob := p.cob, install := true } ∨ p = { cob := p.cob } := by
  obtain ⟨q, hq, hp⟩ := planned_iff.1 h
  simp only [plansOf, List.mem_cons, List.not_mem_nil, or_false] at hq
  rcases hq with rfl | rfl | rfl | rfl
  · exact Or.inr (Or.inr (Or.inr hp))
  · exact Or.inl hp
  · exact Or.inr (Or.inr (Or.inl hp))
  · exact Or.inr (Or.inl hp)

/-- Such a plan casts out first, or goes straight to its read. -/
theorem firstStep_read {p : Plan} (h : Planned .lwarx p) (hp : p.fill = true ∨ p.sread = true) :
    firstStep p = .cobRead ∨ firstStep p = .fillReq ∨ firstStep p = .sreadReq := by
  rcases lwarx_plan h with heq | heq | heq | heq <;> rw [heq] at hp ⊢ <;> simp at hp <;>
    cases p.cob <;> decide

theorem served_same {n : ℕ} (h : reqAccept cfg (r.state n) (r.input n) = false) :
    served r (n + 1) = served r n := by rw [served_succ, h]; rfl

/-- The request registers over an edge that takes no request. -/
theorem req_same {n : ℕ} (hrst : (r.input n).rstN = true)
    (h : reqAccept cfg (r.state n) (r.input n) = false) :
    (r.state (n + 1)).reqOp = (r.state n).reqOp ∧ reqLine (r.state (n + 1)) = reqLine (r.state n) := by
  have hn : r.state (n + 1) = running cfg (r.state n) (r.input n) := step_running hrst
  rw [hn]
  exact ⟨by simp [running, h], reqLine_running h⟩

/-- A machine in its lookup has not begun to read. -/
theorem unacked_lookup {N n : ℕ} (hp : ReadPort r N) (hn : n ≤ N)
    (h : (r.state n).state = .lookup) : ∀ x < n, served r x = served r n → ¬ AcksRead r x := by
  induction n with
  | zero =>
    intro x hx
    omega
  | succ n ih =>
    have hrst := hp.running n (by omega)
    have hstate : r.state (n + 1) = running cfg (r.state n) (r.input n) := step_running hrst
    rw [hstate] at h
    intro x hx hserved hack
    rcases next_lookup (show nextState cfg (r.state n) (r.input n) = .lookup from h) with
      ⟨hacc, -⟩ | ⟨hst, -, hacc⟩
    · have hle := served_mono r (Nat.le_of_lt_succ hx)
      rw [served_succ, hacc, Bool.toNat_true] at hserved
      omega
    · rw [served_same hacc] at hserved
      rcases Nat.lt_succ_iff_lt_or_eq.1 hx with hlt | rfl
      · exact ih (by omega) hst x hlt hserved hack
      · rcases hack.2.1 with hw | hw <;> simp [hst] at hw

/-- A lookup that sets the reservation and does not read goes on to its read. -/
theorem unread_of_lookup {N n : ℕ} (hp : ReadPort r N) (hn : n < N)
    (hr : ResponseInv (r.state n)) (hgo : lkGo cfg (r.state n) (r.input n) = true)
    (hset : (lk cfg (r.state n) (r.input n)).resvSet = true)
    (hread : (lk cfg (r.state n) (r.input n)).read = false) :
    reqAccept cfg (r.state n) (r.input n) = false ∧ Unread r (n + 1) := by
  obtain ⟨hop, hrsp, -, hplan⟩ := lk_resvSet hset
  have hst := (lkGo_spec hgo).1
  have hrst := hp.running n hn
  have hstate : r.state (n + 1) = running cfg (r.state n) (r.input n) := step_running hrst
  have hplan : (lk cfg (r.state n) (r.input n)).plan.fill = true ∨
      (lk cfg (r.state n) (r.input n)).plan.sread = true := by
    rcases hplan with h | h
    · simp [hread] at h
    · exact h
  obtain ⟨hnext, hp', hacc⟩ := lookup_enters hgo hrsp hread hplan
  have hfirst := firstStep_read (hop ▸ plan_lookup) hplan
  have hsent : (r.state (n + 1)).rspSent = (r.state n).rspSent := by
    rw [hstate]
    show nextRspSent cfg (r.state n) (r.input n) = _
    have hnot : (lkFastDone cfg (r.state n) (r.input n) ||
        lkFastStDone cfg (r.state n) (r.input n)) = false := by
      simp [lkFastDone, lkFast, lkFastStDone, lkFastSt, hop]
    simp [nextRspSent, hst, hnot]
  refine ⟨hacc, ⟨?_, ?_, ?_, ?_, ?_⟩⟩
  · rw [(req_same hrst hacc).1, hop]
  · intro x hx hserved
    rw [served_same hacc] at hserved
    rcases Nat.lt_succ_iff_lt_or_eq.1 hx with hlt | rfl
    · exact unacked_lookup hp hn.le hst x hlt hserved
    · intro hack
      rcases hack.2.1 with hw | hw <;> simp [hst] at hw
  · rw [hsent, (hr.lookup hst).2]
  · rw [hstate]
    show (nextPlan cfg (r.state n) (r.input n)).fill = true ∨
      (nextPlan cfg (r.state n) (r.input n)).sread = true
    rw [hp']
    exact hplan
  · have hs : (r.state (n + 1)).state = firstStep (lk cfg (r.state n) (r.input n)).plan := by
      rw [hstate]
      exact hnext
    rw [hs]
    rcases hfirst with h | h | h
    · exact Or.inl (by rw [h]; rfl)
    · exact Or.inr (Or.inl h)
    · exact Or.inr (Or.inr (Or.inl h))

/-! ## The cycles of a bus read -/

theorem readWait_phase {s : State} (h : ReadWait s) : ∃ p, phaseOf s.state = some p := by
  rcases h with h | h
  · exact ⟨.fillReq, by rw [h]; rfl⟩
  · exact ⟨.sreadReq, by rw [h]; rfl⟩

/-- The `lwarx` waits for the first beat of its read. -/
structure Waiting (r : Run (machine cfg)) (n : ℕ) : Prop where
  op : (r.state n).reqOp = .lwarx
  unsent : (r.state n).rspSent = false
  wait : ReadWait (r.state n)
  first : (r.state n).state = .fillWait → (r.state n).stepIdx = 0

/-- The first beat answers. -/
theorem waiting_beat {n : ℕ} (hrst : (r.input n).rstN = true) (hw : Waiting r n)
    (hb : (r.input n).busRdValid = true) : LwarxAnswers r n (reqLine (r.state n)) := by
  have hstate : r.state (n + 1) = running cfg (r.state n) (r.input n) := step_running hrst
  have hrsp : (r.state (n + 1)).rsp = nextRsp cfg (r.state n) (r.input n) := by rw [hstate]; rfl
  refine ⟨hw.op, rfl, ?_⟩
  rw [hrsp]
  have htouch : touchOp (r.state n) = false := by simp [touchOp, hw.op]
  have hearly : earlyRspOp (r.state n) = true := by simp [earlyRspOp, hw.op]
  rcases hw.wait with hst | hst
  · have hidx := hw.first hst
    have hno : stepAnswers (r.state n) (r.input n) = false := by
      simp [stepAnswers, stepDone, hst, hidx]
    cases he : (r.input n).busRdError with
    | true =>
      refine ⟨?_, Or.inr ⟨hb, rfl⟩⟩
      simp [nextRsp, hno, rspFsm, hst, hb, he, hw.unsent]
    | false =>
      have hfill : fillBeat (r.state n) (r.input n) = true := by simp [fillBeat, hst, hb, he]
      refine ⟨?_, Or.inl ?_⟩ <;> simp [nextRsp, hno, rspFsm, hst, hb, he, hfill, hidx, hearly]
  · have hno : stepAnswers (r.state n) (r.input n) = false := by simp [stepAnswers, hst]
    refine ⟨by simp [nextRsp, hno, rspFsm, hst, hb], ?_⟩
    cases he : (r.input n).busRdError with
    | true => exact Or.inr ⟨hb, rfl⟩
    | false => exact Or.inl (by simp [nextRsp, hno, rspFsm, hst, hb, he])

/-- Without a beat the wait goes on. -/
theorem waiting_stay {n : ℕ} (hrst : (r.input n).rstN = true) (hw : Waiting r n)
    (hb : (r.input n).busRdValid = false) :
    Waiting r (n + 1) ∧ (r.state (n + 1)).state = (r.state n).state ∧
      (r.state (n + 1)).plan = (r.state n).plan := by
  have hstate : r.state (n + 1) = running cfg (r.state n) (r.input n) := step_running hrst
  obtain ⟨p, hp⟩ := readWait_phase hw.wait
  have hacc := @reqAccept_of_phase cfg (r.state n) (r.input n) _ hp
  have hgo := @lkGo_of_phase cfg (r.state n) (r.input n) _ hp
  have hop : (r.state (n + 1)).reqOp = .lwarx := (req_same hrst hacc).1.trans hw.op
  have hfill : fillBeat (r.state n) (r.input n) = false := by simp [fillBeat, hb]
  have hsent : nextRspSent cfg (r.state n) (r.input n) = false := by
    rcases hw.wait with hst | hst <;> simp [nextRspSent, hst, hb, hfill, hw.unsent]
  have hd : stepDone (r.state n) (r.input n) = false := by
    rcases hw.wait with hst | hst <;> simp [stepDone, hst, hb, hfill]
  have hnext : nextState cfg (r.state n) (r.input n) = (r.state n).state := by
    rcases hw.wait with hst | hst <;> simp [nextState, hd, hst, hb]
  have hplan : nextPlan cfg (r.state n) (r.input n) = (r.state n).plan := by
    simp [nextPlan, hd, hgo, hb]
  have hidx : (r.state n).state = .fillWait → nextStepIdx cfg (r.state n) (r.input n) = 0 := by
    intro hst
    simp [nextStepIdx, hd, hst, hfill, hw.first hst]
  have hsame : (r.state (n + 1)).state = (r.state n).state := by rw [hstate]; exact hnext
  refine ⟨⟨hop, by rw [hstate]; exact hsent, ?_, ?_⟩, hsame, by rw [hstate]; exact hplan⟩
  · rcases hw.wait with hst | hst
    · exact Or.inl (hsame.trans hst)
    · exact Or.inr (hsame.trans hst)
  · intro h
    rw [hstate]
    exact hidx (hsame.symm.trans h)

/-- Before its read is on the bus a `lwarx` comes nearer to it. -/
theorem unread_approach {n : ℕ} (hrst : (r.input n).rstN = true) (hc : ControlInv (r.state n))
    (hu : Unread r n) (hw : ¬ ReadWait (r.state n)) : Unread r (n + 1) ∧
      reqAccept cfg (r.state n) (r.input n) = false := by
  have hstate : r.state (n + 1) = running cfg (r.state n) (r.input n) := step_running hrst
  have hphase : ∃ p, phaseOf (r.state n).state = some p := by
    rcases hu.at' with h | h | h | h
    · exact ⟨_, h⟩
    · exact ⟨.fillReq, by rw [h]; rfl⟩
    · exact ⟨.sreadReq, by rw [h]; rfl⟩
    · exact absurd h.1 hw
  obtain ⟨p, hp⟩ := hphase
  have hacc := @reqAccept_of_phase cfg (r.state n) (r.input n) _ hp
  have hgo := @lkGo_of_phase cfg (r.state n) (r.input n) _ hp
  obtain ⟨hplanned, hfirst⟩ := hc p hp
  rw [hu.op] at hplanned
  have hsent : nextRspSent cfg (r.state n) (r.input n) = false := by
    have hu' := hu.unsent
    rcases hu.at' with h | h | h | h
    · cases hst : (r.state n).state <;> simp [hst, phaseOf] at h <;> simp [nextRspSent, hst, hu']
    · simp [nextRspSent, h, hu']
    · simp [nextRspSent, h, hu']
    · exact absurd h.1 hw
  have hnot : ∀ x < n + 1, served r x = served r (n + 1) → ¬ AcksRead r x := by
    intro x hx hserved hack
    rw [served_same hacc] at hserved
    rcases Nat.lt_succ_iff_lt_or_eq.1 hx with hlt | rfl
    · exact hu.notYet x hlt hserved hack
    · exact hw hack.2.1
  have hkey : ((nextPlan cfg (r.state n) (r.input n)).fill = true ∨
      (nextPlan cfg (r.state n) (r.input n)).sread = true) ∧
      (phaseOf (nextState cfg (r.state n) (r.input n)) = some .cobRead ∨
        nextState cfg (r.state n) (r.input n) = .fillReq ∨
        nextState cfg (r.state n) (r.input n) = .sreadReq ∨
        ((nextState cfg (r.state n) (r.input n) = .fillWait ∨
            nextState cfg (r.state n) (r.input n) = .sreadWait) ∧
          (nextState cfg (r.state n) (r.input n) = .fillWait →
            nextStepIdx cfg (r.state n) (r.input n) = 0))) := by
    rcases hu.at' with h | h | h | h
    · -- the castout, or the end of it
      rw [h, Option.some.injEq] at hp
      subst hp
      rcases @phase_step cfg (r.state n) (r.input n) _ h with ⟨-, hn, hnp⟩ | ⟨-, hn, hnp⟩ | ⟨-, hst, -⟩
      · rw [hn, hnp]
        have hcob := firstStep_eq_cob.1 hfirst
        have hread := hu.plan
        rcases lwarx_plan hplanned with heq | heq | heq | heq <;> rw [heq] at hread ⊢ <;>
          simp at hread <;> simp [Plan.clear, firstStep]
      · rw [hnp]
        exact ⟨hu.plan, Or.inl hn⟩
      · simp [hst, phaseOf] at h
    · have hd : stepDone (r.state n) (r.input n) = false := by simp [stepDone, h]
      have hpl : nextPlan cfg (r.state n) (r.input n) = (r.state n).plan := by
        simp [nextPlan, hd, hgo, h]
      rw [hpl]
      refine ⟨hu.plan, ?_⟩
      cases hb : busAccept (r.state n) (r.input n) <;>
        simp [nextState, nextStepIdx, hd, h, hb]
    · have hd : stepDone (r.state n) (r.input n) = false := by simp [stepDone, h]
      have hpl : nextPlan cfg (r.state n) (r.input n) = (r.state n).plan := by
        simp [nextPlan, hd, hgo, h]
      rw [hpl]
      refine ⟨hu.plan, ?_⟩
      cases hb : busAccept (r.state n) (r.input n) <;>
        simp [nextState, nextStepIdx, hd, h, hb]
    · exact absurd h.1 hw
  refine ⟨⟨(req_same hrst hacc).1.trans hu.op, hnot, ?_, ?_, ?_⟩, hacc⟩
  · rw [hstate]; exact hsent
  · rw [hstate]; exact hkey.1
  · rw [hstate]; exact hkey.2

theorem waiting_of_unread {n : ℕ} (hu : Unread r n) (hw : ReadWait (r.state n)) : Waiting r n := by
  refine ⟨hu.op, hu.unsent, hw, ?_⟩
  intro hst
  rcases hu.at' with h | h | h | h
  · simp [hst, phaseOf] at h
  · simp [hst] at h
  · simp [hst] at h
  · exact h.2 hst

/-- A wait not yet past the retry window leaves the read ahead. -/
theorem unread_stay {n : ℕ} (hrst : (r.input n).rstN = true) (hu : Unread r n)
    (hw : ReadWait (r.state n))
    (hack : ¬ ((r.input n).busReqAcked = true ∨ (r.input n).busRdValid = true)) :
    Unread r (n + 1) := by
  obtain ⟨p, hp⟩ := readWait_phase hw
  have hacc := @reqAccept_of_phase cfg (r.state n) (r.input n) _ hp
  have hb : (r.input n).busRdValid = false := by
    cases h : (r.input n).busRdValid with
    | false => rfl
    | true => exact absurd (Or.inr h) hack
  obtain ⟨hw', hsame, hplan⟩ := waiting_stay hrst (waiting_of_unread hu hw) hb
  refine ⟨hw'.op, ?_, hw'.unsent, by rw [hplan]; exact hu.plan, ?_⟩
  · intro x hx hserved hx'
    rw [served_same hacc] at hserved
    rcases Nat.lt_succ_iff_lt_or_eq.1 hx with hlt | rfl
    · exact hu.notYet x hlt hserved hx'
    · exact hack hx'.2.2
  · exact Or.inr (Or.inr (Or.inr ⟨hw'.wait, hw'.first⟩))

/-- An operation past its read stays in its wait, or leaves it for its install or
for good. -/
theorem after_wait {n : ℕ} (hc : ControlInv (r.state n)) (hop : (r.state n).reqOp = .lwarx)
    (hw : ReadWait (r.state n)) :
    nextState cfg (r.state n) (r.input n) = (r.state n).state ∨
      nextState cfg (r.state n) (r.input n) = .install ∨
      nextState cfg (r.state n) (r.input n) = .idle := by
  obtain ⟨p, hp⟩ := readWait_phase hw
  obtain ⟨hplanned, hfirst⟩ := hc p hp
  rw [hop] at hplanned
  rcases @phase_step cfg (r.state n) (r.input n) _ hp with ⟨-, hn, -⟩ | ⟨hd, -, -⟩ | ⟨-, -, -, -, hn⟩
  · -- the read is complete
    rw [hn]
    rcases hw with hst | hst <;> rw [hst, phaseOf, Option.some.injEq] at hp <;> subst hp <;>
      rcases lwarx_plan hplanned with heq | heq | heq | heq <;> rw [heq] at hfirst ⊢ <;>
      cases hcob : (r.state n).plan.cob <;> simp [hcob, firstStep] at hfirst <;>
      simp [Plan.clear, firstStep]
  · rcases hw with hst | hst
    · by_cases herr : (r.input n).busRdValid = true ∧ (r.input n).busRdError = true
      · simp [nextState, hd, hst, herr]
      · simp [nextState, hd, hst, herr]
    · simp [nextState, hd, hst]
  · exact Or.inr (Or.inr hn)

/-- After its install a `lwarx` is done. -/
theorem after_install {n : ℕ} (hc : ControlInv (r.state n)) (hop : (r.state n).reqOp = .lwarx)
    (hst : (r.state n).state = .install) :
    nextState cfg (r.state n) (r.input n) = .install ∨
      nextState cfg (r.state n) (r.input n) = .idle := by
  have hp : phaseOf (r.state n).state = some .install := by rw [hst]; rfl
  obtain ⟨hplanned, hfirst⟩ := hc _ hp
  rw [hop] at hplanned
  rcases @phase_step cfg (r.state n) (r.input n) _ hp with ⟨-, hn, -⟩ | ⟨hd, -, -⟩ | ⟨-, hst', -⟩
  · rw [hn]
    rcases lwarx_plan hplanned with heq | heq | heq | heq <;> rw [heq] at hfirst ⊢ <;>
      cases hcob : (r.state n).plan.cob <;> simp [hcob, firstStep] at hfirst
    simp [Plan.clear, firstStep]
  · simp [nextState, hd, hst]
  · simp [hst] at hst'

/-- The edge of a wait past the retry window. -/
theorem claimed_succ {n : ℕ} (hc : ControlInv (r.state n)) (hrst : (r.input n).rstN = true)
    (hack : AcksRead r n) (howns : fsmOwns (r.state (n + 1)) = true) : Claimed r (n + 1) := by
  have hstate : r.state (n + 1) = running cfg (r.state n) (r.input n) := step_running hrst
  have hnext : (r.state (n + 1)).state = nextState cfg (r.state n) (r.input n) := by
    rw [hstate]
    rfl
  rcases after_wait hc hack.1 hack.2.1 with h | h | h
  · right; right
    refine ⟨?_, n, rfl, hack⟩
    rw [ReadWait, hnext, h]
    exact hack.2.1
  · exact Or.inr (Or.inl (hnext.trans h))
  · simp [fsmOwns, hnext, h] at howns

/-- **A `lwarx` past its lookup has its read ahead of it or has claimed its line.** -/
theorem lwarx_progress {N n : ℕ} (hp : ReadPort r N) (hn : n ≤ N)
    (hop : (r.state n).reqOp = .lwarx) (howns : fsmOwns (r.state n) = true) :
    Unread r n ∨ Claimed r n := by
  induction n with
  | zero =>
    obtain ⟨hst, -⟩ := state_initial r.initial
    simp [fsmOwns, hst] at howns
  | succ n ih =>
    have hrun := hp.running.mono hn
    have hrst := hp.running n (by omega)
    have hc := (arrayInv_run (hrun.mono n.le_succ)).control
    have hresp := responseInv_run (hrun.mono n.le_succ)
    have hstate : r.state (n + 1) = running cfg (r.state n) (r.input n) := step_running hrst
    have hnext : (r.state (n + 1)).state = nextState cfg (r.state n) (r.input n) := by
      rw [hstate]
      rfl
    cases hph : phaseOf (r.state n).state with
    | none =>
      cases hq : phaseOf (r.state (n + 1)).state with
      | none =>
        -- past its lookup but in no step: it reads its hit
        right; left
        cases hst : (r.state (n + 1)).state <;> simp [hst, phaseOf, fsmOwns] at hq howns ⊢
      | some q =>
        rw [hnext] at hq
        obtain ⟨hst, hgo, hans, hread, hacc, -, -⟩ := enter_phase hph hq
        left
        refine (unread_of_lookup hp (by omega) hresp hgo (lk_lwarx ?_ ?_) hread).2
        · rw [← (req_same hrst hacc).1, hop]
        · simp only [lkAnswers, Bool.or_eq_false_iff] at hans
          exact hans.1
    | some p =>
      have hacc := @reqAccept_of_phase cfg (r.state n) (r.input n) _ hph
      rw [(req_same hrst hacc).1] at hop
      have hown : fsmOwns (r.state n) = true := by
        cases hst : (r.state n).state <;> simp [hst, phaseOf, fsmOwns] at hph ⊢
      rcases ih (by omega) hop hown with hu | hcl
      · by_cases hw : ReadWait (r.state n)
        · by_cases hack : (r.input n).busReqAcked = true ∨ (r.input n).busRdValid = true
          · exact Or.inr (claimed_succ hc hrst ⟨hop, hw, hack⟩ howns)
          · exact Or.inl (unread_stay hrst hu hw hack)
        · exact Or.inl (unread_approach hrst hc hu hw).1
      · rcases hcl with h | h | h
        · simp [h, phaseOf] at hph
        · rcases after_install hc hop h with h' | h'
          · exact Or.inr (Or.inr (Or.inl (hnext.trans h')))
          · simp [fsmOwns, hnext, h'] at howns
        · have hack := acked_of_claimed hp (by omega) (Or.inr (Or.inr h)) h.1
          exact Or.inr (claimed_succ hc hrst ⟨hop, h.1, Or.inl hack⟩ howns)

end Progress

/-! ## What a valid reservation stands for -/

section Linked

variable (r : Run (machine cfg))

/-- The `lwarx` in progress has read and its answer is on the way. -/
structure Answering (n line : ℕ) : Prop where
  op : (r.state n).reqOp = .lwarx
  line_eq : reqLine (r.state n) = line
  at' : (r.state n).state = .readData ∨ (Waiting r n ∧ ∃ m, n = m + 1 ∧ AcksRead r m)

/-- What a reservation of the line stands for: a `lwarx` that read in cycle `j` and
was answered in cycle `m`, one that has read and is not yet answered, or one that
has still to read. -/
inductive Link (n line : ℕ) : Prop
  | linked (j m : ℕ) (reads : LwarxReads r j line) (answers : LwarxAnswers r m line)
      (same : served r j = served r m) (le : j ≤ m) (lt : m < n)
      (quiet : Quiet (Breaks r line) j n)
  | reading (j : ℕ) (reads : LwarxReads r j line) (answering : Answering r n line)
      (same : served r j = served r n) (lt : j < n) (quiet : Quiet (Breaks r line) j n)
  | pending (unread : Unread r n) (line_eq : reqLine (r.state n) = line)

variable {r}

/-- A cycle of a wait past the retry window. -/
theorem link_of_wait {n j line : ℕ} (hrst : (r.input n).rstN = true) (hw : Waiting r n)
    (hack : AcksRead r n) (hline : reqLine (r.state n) = line) (hj : LwarxReads r j line)
    (hle : j ≤ n) (hsame : served r j = served r n) (hq : Quiet (Breaks r line) j (n + 1)) :
    Link r (n + 1) line := by
  obtain ⟨p, hp⟩ := readWait_phase hw.wait
  have hacc := @reqAccept_of_phase cfg (r.state n) (r.input n) _ hp
  cases hb : (r.input n).busRdValid with
  | true =>
    have hans : LwarxAnswers r n line := hline ▸ waiting_beat hrst hw hb
    exact Link.linked j n hj hans hsame hle n.lt_succ_self hq
  | false =>
    obtain ⟨hw', -, -⟩ := waiting_stay hrst hw hb
    have hline' : reqLine (r.state (n + 1)) = line := by rw [(req_same hrst hacc).2, hline]
    exact Link.reading j hj ⟨hw'.op, hline', Or.inr ⟨hw', n, rfl, hack⟩⟩
      (by rw [served_same hacc, hsame]) (by omega) hq

/-- A `lwarx` that has still to read, over an edge: whatever has gone before, what
counts begins with its read. -/
theorem pending_succ {n : ℕ} (hrst : (r.input n).rstN = true) (hc : ControlInv (r.state n))
    (hu : Unread r n) : Link r (n + 1) (reqLine (r.state n)) := by
  by_cases hw : ReadWait (r.state n)
  · by_cases hack : (r.input n).busReqAcked = true ∨ (r.input n).busRdValid = true
    · have hreads : LwarxReads r n (reqLine (r.state n)) :=
        ⟨hu.op, rfl, Or.inr ⟨⟨hu.op, hw, hack⟩, hu.notYet⟩⟩
      exact link_of_wait hrst (waiting_of_unread hu hw) ⟨hu.op, hw, hack⟩ rfl hreads le_rfl rfl
        (quiet_self _ n)
    · obtain ⟨p, hp⟩ := readWait_phase hw
      have hacc := @reqAccept_of_phase cfg (r.state n) (r.input n) _ hp
      exact Link.pending (unread_stay hrst hu hw hack) (req_same hrst hacc).2
  · obtain ⟨hu', hacc⟩ := unread_approach hrst hc hu hw
    exact Link.pending hu' (req_same hrst hacc).2

/-- The answer to a hit read in cycle `n` is written by the edge after it. -/
theorem answers_of_readData {n line : ℕ} (hrst : (r.input n).rstN = true)
    (h : Answering r n line) (hst : (r.state n).state = .readData) : LwarxAnswers r n line := by
  have hrsp : (r.state (n + 1)).rsp = nextRsp cfg (r.state n) (r.input n) := by
    rw [show r.state (n + 1) = running cfg (r.state n) (r.input n) from step_running hrst]
    rfl
  have hno : stepAnswers (r.state n) (r.input n) = false := by simp [stepAnswers, stepDone, hst]
  refine ⟨h.op, h.line_eq, ?_, Or.inl ?_⟩ <;> simp [hrsp, nextRsp, hno, rspFsm, hst]

/-- A lookup that sets the reservation. -/
theorem link_of_set {N n : ℕ} (hp : ReadPort r N) (hn : n < N) (hr : ResponseInv (r.state n))
    (hgo : lkGo cfg (r.state n) (r.input n) = true)
    (hset : (lk cfg (r.state n) (r.input n)).resvSet = true) :
    Link r (n + 1) (reqLine (r.state n)) := by
  have hrst := hp.running n hn
  have hstate : r.state (n + 1) = running cfg (r.state n) (r.input n) := step_running hrst
  obtain ⟨hop, hrsp, -, -⟩ := lk_resvSet hset
  cases hread : (lk cfg (r.state n) (r.input n)).read with
  | false =>
    obtain ⟨hacc, hu⟩ := unread_of_lookup hp hn hr hgo hset hread
    exact Link.pending hu (req_same hrst hacc).2
  | true =>
    have hst := (lkGo_spec hgo).1
    have hreads : LwarxReads r n (reqLine (r.state n)) := ⟨hop, rfl, Or.inl ⟨hgo, hread⟩⟩
    have hd : stepDone (r.state n) (r.input n) = false := by simp [stepDone, hst]
    have hfast : lkFastDone cfg (r.state n) (r.input n) = false := by
      simp [lkFastDone, lkFast, hop]
    have hfastSt : lkFastStDone cfg (r.state n) (r.input n) = false := by
      simp [lkFastStDone, lkFastSt, hop]
    have hans : lkAnswers cfg (r.state n) (r.input n) = false := by
      simp [lkAnswers, hrsp, hread]
    cases hearly : (r.state n).earlyData with
    | true =>
      have hno : stepAnswers (r.state n) (r.input n) = false := by simp [stepAnswers, hd]
      have hnone := (hr.lookup hst).1
      have hclear := rspCleared_of_invalid (i := r.input n) hnone
      have herror := (hr.status hnone).1
      have hrsp' : (r.state (n + 1)).rsp = nextRsp cfg (r.state n) (r.input n) := by
        rw [hstate]
        rfl
      have hansw : LwarxAnswers r n (reqLine (r.state n)) := by
        refine ⟨hop, rfl, ?_, Or.inl ?_⟩ <;>
          simp [hrsp', nextRsp, hno, rspFsm, hst, hgo, hans, hfast, hfastSt, hread, hearly, hclear,
            herror]
      exact Link.linked n n hreads hansw rfl le_rfl n.lt_succ_self (quiet_self _ n)
    | false =>
      have hacc : reqAccept cfg (r.state n) (r.input n) = false := by
        simp [reqAccept, reqReady, hst, hfast, lkFastStNext, hfastSt]
      have hnext : (r.state (n + 1)).state = .readData := by
        rw [hstate]
        show nextState cfg (r.state n) (r.input n) = .readData
        simp [nextState, hd, hst, hgo, afterLookup, hans, hfast, hfastSt, hread, hearly]
      obtain ⟨hop', hline'⟩ := req_same hrst hacc
      exact Link.reading n hreads ⟨hop'.trans hop, hline', Or.inl hnext⟩
        (served_same hacc).symm n.lt_succ_self (quiet_self _ n)

/-- **A reservation over an edge.**  A cancelling snoop that leaves it valid finds
its `lwarx` with the read still ahead. -/
theorem link_succ {N n : ℕ} (hp : ReadPort r N) (hn : n < N)
    (ih : (r.state n).resvValid = true → Link r n (r.state n).resvLine)
    (h : (r.state (n + 1)).resvValid = true) : Link r (n + 1) (r.state (n + 1)).resvLine := by
  have hrun := hp.running.mono hn.le
  have hrst := hp.running n hn
  have hc := (arrayInv_run hrun).control
  have hstate : r.state (n + 1) = running cfg (r.state n) (r.input n) := step_running hrst
  have hline : (r.state (n + 1)).resvLine =
      if lkGo cfg (r.state n) (r.input n) && (lk cfg (r.state n) (r.input n)).resvSet then
        reqLine (r.state n) else (r.state n).resvLine := by
    rw [hstate]
    rfl
  have hvalid : nextResvValid cfg (r.state n) (r.input n) = true := by
    rw [hstate] at h
    exact h
  rw [hline]
  unfold nextResvValid at hvalid
  split_ifs at hvalid with hclear hset hcancel
  · rw [if_pos hset]
    rw [Bool.and_eq_true] at hset
    exact link_of_set hp hn (responseInv_run hrun) hset.1 hset.2
  · rw [if_neg hset]
    have hlink := ih hvalid
    have hstwcx : ¬ StwcxPerformed r n := by
      rintro ⟨hgo, hop⟩
      exact hclear (by rw [hgo, (lk_stwcx hop).1]; rfl)
    by_cases hcan : Cancelled r n (r.state n).resvLine
    · -- spared: the `lwarx` has not claimed its line, so it has not read it
      obtain ⟨hsnp, hprobe, htype, heq, hartry⟩ := hcan
      have hspared : fsmOwns (r.state n) = true ∧ fsmClaims (r.state n) (r.input n) = false ∧
          (r.state n).reqOp = .lwarx ∧ reqLine (r.state n) = snpLine (r.state n) := by
        simp only [sResvCancel, hsnp, snpCancelType_iff.2 htype, hprobe, hartry, hvalid, heq] at hcancel
        simpa [and_assoc, heq] using hcancel
      obtain ⟨howns, hclaims, hop, hreq⟩ := hspared
      rcases lwarx_progress hp hn.le hop howns with hu | hcl
      · rw [← heq, ← hreq]
        exact pending_succ hrst hc hu
      · exact absurd (fsmClaims_of_claimed hp hn hcl).2 (by simp [hclaims])
    · have hbreak : ¬ Breaks r (r.state n).resvLine n := by
        rintro (hb | hb)
        · exact hstwcx hb
        · exact hcan hb
      cases hlink with
      | linked j m reads answers same le lt quiet =>
        exact Link.linked j m reads answers same le (by omega) (quiet.succ hbreak)
      | reading j reads answering same lt quiet =>
        rcases answering.at' with hst | ⟨hw, m, rfl, hm⟩
        · exact Link.linked j n reads (answers_of_readData hrst answering hst) same (by omega)
            n.lt_succ_self (quiet.succ hbreak)
        · have hack : AcksRead r (m + 1) := ⟨hw.op, hw.wait, Or.inl (hp.held m hn hm hw.wait)⟩
          exact link_of_wait hrst hw hack answering.line_eq reads (by omega) same (quiet.succ hbreak)
      | pending unread line_eq =>
        rw [← line_eq]
        exact pending_succ hrst hc unread

theorem link_run {N n : ℕ} (hp : ReadPort r N) (hn : n ≤ N)
    (h : (r.state n).resvValid = true) : Link r n (r.state n).resvLine := by
  induction n with
  | zero =>
    obtain ⟨s₀, i, hrst, hstart⟩ := r.initial
    rw [Run.state_zero, hstart] at h
    simp [step, hrst, reset] at h
  | succ n ih => exact link_succ hp (by omega) (ih (by omega)) h

end Linked

/-! ## From the check to the answer -/

section Checked

variable (r : Run (machine cfg))

/-- In each cycle after `k` up to `n` a `stwcx.` to the line is in progress. -/
def StwcxHolds (k n line : ℕ) : Prop :=
  ∀ x, k < x → x ≤ n → phaseOf (r.state x).state ≠ none ∧ (r.state x).reqOp = .stwcx ∧
    reqLine (r.state x) = line

/-- A store is made in cycle `n`: written to the array, or taken by the bus. -/
def StoreMade (n : ℕ) : Prop :=
  (r.state n).state = .storeWrite ∨
    ((r.state n).state = .swriteReq ∧ busAccept (r.state n) (r.input n) = true)

/-- A `stwcx.` checks its reservation in cycle `k`, makes its store, and succeeds
with the edge of cycle `e`, which ends it. -/
structure StwcxSucceeds (k e line : ℕ) : Prop where
  check : StwcxChecks r k line
  lt : k < e
  holds : StwcxHolds r k e line
  made : ∃ x, k < x ∧ x ≤ e ∧ StoreMade r x
  ends : (r.state (e + 1)).state = .idle
  answer : (r.state (e + 1)).rsp.valid = true ∧ (r.state (e + 1)).rsp.error = false

variable {r}

/-- An operation in a step holds its line against every snoop the cache acts on
when it is a `stwcx.`. -/
theorem snoopRetried_of_holds {k n x line : ℕ} (h : StwcxHolds r k n line) (hk : k < x)
    (hn : x ≤ n) : SnoopRetried r x line := by
  intro hsnp hline hclass
  obtain ⟨hphase, hop, hreq⟩ := h x hk hn
  have howns : fsmOwns (r.state x) = true := by
    cases hst : (r.state x).state <;> simp [hst, phaseOf, fsmOwns] at hphase ⊢
  have hconf : snpConflict (r.state x) (r.input x) = true := by
    simp [snpConflict, fsmClaims, howns, hop, hreq, hline]
  simp [sArtry, snpActs, hsnp, hclass, hconf]

/-- A store still to make is made by the step that ends, or is left to a later
one. -/
theorem storeMade_of_done {n : ℕ} {p : DcState} (hph : phaseOf (r.state n).state = some p)
    (hd : stepDone (r.state n) (r.input n) = true)
    (h : (r.state n).plan.store = true ∨ (r.state n).plan.swrite = true) :
    StoreMade r n ∨ ((r.state n).plan.clear p).store = true ∨
      ((r.state n).plan.clear p).swrite = true := by
  cases hst : (r.state n).state <;> simp only [hst, phaseOf, Option.some.injEq, reduceCtorEq] at hph <;>
    subst hph
  case storeWrite => exact Or.inl (Or.inl hst)
  case swriteReq =>
    simp only [stepDone, hst] at hd
    exact Or.inl (Or.inr ⟨hst, hd⟩)
  all_goals exact Or.inr h

/-- A `stwcx.` in a step, promised success, has checked its reservation, and has
made its store or has still to make it. -/
theorem holds_run {n : ℕ} (hrun : r.Obeys OutOfReset n)
    (hphase : phaseOf (r.state n).state ≠ none) (hok : (r.state n).stwcxOk = true) :
    ∃ k < n, StwcxChecks r k (reqLine (r.state n)) ∧ StwcxHolds r k n (reqLine (r.state n)) ∧
      (((r.state n).plan.store = true ∨ (r.state n).plan.swrite = true) ∨
        ∃ x, k < x ∧ x < n ∧ StoreMade r x) := by
  induction n with
  | zero =>
    obtain ⟨hst, -⟩ := state_initial r.initial
    simp [hst, phaseOf] at hphase
  | succ n ih =>
    have hrst : (r.input n).rstN = true := hrun n n.lt_succ_self
    have hstate : r.state (n + 1) = running cfg (r.state n) (r.input n) := step_running hrst
    have hnext : (r.state (n + 1)).state = nextState cfg (r.state n) (r.input n) := by
      rw [hstate]
      rfl
    have hplan : (r.state (n + 1)).plan = nextPlan cfg (r.state n) (r.input n) := by
      rw [hstate]
      rfl
    have hokNext : (r.state (n + 1)).stwcxOk =
        if lkGo cfg (r.state n) (r.input n) then (lk cfg (r.state n) (r.input n)).ok
        else (r.state n).stwcxOk := by
      rw [hstate]
      rfl
    rw [hokNext] at hok
    cases hph : phaseOf (r.state n).state with
    | none =>
      obtain ⟨q, hq⟩ := Option.ne_none_iff_exists'.1 hphase
      rw [hnext] at hq
      obtain ⟨hst, hgo, hans, -, hacc, -, hp⟩ := enter_phase hph hq
      rw [if_pos hgo] at hok
      obtain ⟨hop, -, hstore⟩ := lk_ok hok
      have hrsp : (lk cfg (r.state n) (r.input n)).rsp = false := by
        simp only [lkAnswers, Bool.or_eq_false_iff] at hans
        exact hans.1
      obtain ⟨hop', hline'⟩ := req_same hrst hacc
      refine ⟨n, n.lt_succ_self, ⟨⟨hgo, hop⟩, (lk_stwcx hop).2 hrsp, hline'.symm⟩, ?_, Or.inl ?_⟩
      · intro x hx hx'
        obtain rfl : x = n + 1 := by omega
        exact ⟨hphase, hop'.trans hop, rfl⟩
      · rw [hplan, hp]
        exact hstore
    | some p =>
      have hgo := @lkGo_of_phase cfg (r.state n) (r.input n) _ hph
      have hacc := @reqAccept_of_phase cfg (r.state n) (r.input n) _ hph
      rw [hgo] at hok
      obtain ⟨hop', hline'⟩ := req_same hrst hacc
      obtain ⟨k, hk, hcheck, hholds, hstore⟩ :=
        ih (hrun.mono n.le_succ) (by simp [hph]) (by simpa using hok)
      rw [hline', hplan]
      refine ⟨k, by omega, hcheck, ?_, ?_⟩
      · intro x hx hx'
        rcases Nat.lt_succ_iff_lt_or_eq.1 (Nat.lt_succ_of_le hx') with hlt | rfl
        · exact hholds x hx (Nat.le_of_lt_succ hlt)
        · exact ⟨hphase, hop'.trans (hholds n hk le_rfl).2.1, hline'⟩
      · rcases hstore with hstore | ⟨x, hx, hx', hmade⟩
        · rcases @phase_step cfg (r.state n) (r.input n) _ hph with
            ⟨hd, -, hp⟩ | ⟨-, -, hp⟩ | ⟨-, -, -, -, hidle⟩
          · rw [hp]
            rcases storeMade_of_done hph hd hstore with hmade | hleft
            · exact Or.inr ⟨n, hk, n.lt_succ_self, hmade⟩
            · exact Or.inl hleft
          · rw [hp]
            exact Or.inl hstore
          · simp [hnext, hidle, phaseOf] at hphase
        · exact Or.inr ⟨x, hx, by omega, hmade⟩

/-- Success is written with the end of a `stwcx.`, and nothing else writes it. -/
theorem rspFsm_ok (h : (rspFsm cfg s i).ok = true) : s.rsp.ok = true := by
  have hclear : (rspCleared s i).ok = true → s.rsp.ok = true := by
    unfold rspCleared
    split_ifs <;> simp
  unfold rspFsm at h
  cases hst : s.state <;> simp only [hst] at h <;> (try split_ifs at h) <;>
    first
    | exact hclear h
    | exact absurd (lk_ok h).2.1 (by simp_all)
    | simp at h

/-- **A success on the port was earned**: its `stwcx.` passed its check and held
its line up to the edge that answered it, and the answer stands since. -/
theorem succeeds_run {n : ℕ} (hrun : r.Obeys OutOfReset n) (hok : (r.state n).rsp.ok = true) :
    ∃ line k e, e < n ∧ StwcxSucceeds r k e line ∧
      ∀ x, e < x → x ≤ n → (r.state x).rsp.ok = true := by
  induction n with
  | zero =>
    obtain ⟨s₀, i, hrst, hstart⟩ := r.initial
    rw [Run.state_zero, hstart] at hok
    simp [step, hrst, reset] at hok
  | succ n ih =>
    have hrst : (r.input n).rstN = true := hrun n n.lt_succ_self
    have hstate : r.state (n + 1) = running cfg (r.state n) (r.input n) := step_running hrst
    have hrsp : (r.state (n + 1)).rsp = nextRsp cfg (r.state n) (r.input n) := by
      rw [hstate]
      rfl
    have hok' := hok
    rw [hrsp] at hok'
    unfold nextRsp at hok'
    split_ifs at hok' with hans
    · have hspec := hans
      simp only [stepAnswers, Bool.and_eq_true, decide_eq_true_eq] at hspec
      obtain ⟨⟨⟨hdone, hidle⟩, -⟩, -⟩ := hspec
      have hphase : phaseOf (r.state n).state ≠ none := by
        cases hst : (r.state n).state <;> simp [hst, phaseOf, stepDone] at hdone ⊢
      obtain ⟨p, hp⟩ := Option.ne_none_iff_exists'.1 hphase
      obtain ⟨k, hk, hcheck, hholds, hstore⟩ := holds_run (hrun.mono n.le_succ) hphase hok'
      have hmade : ∃ x, k < x ∧ x ≤ n ∧ StoreMade r x := by
        rcases hstore with hstore | ⟨x, hx, hx', hmade⟩
        · -- the last step of the plan makes the store it still holds
          rcases storeMade_of_done hp hdone hstore with hmade | hleft
          · exact ⟨n, hk, le_rfl, hmade⟩
          · rw [stateNext, planNext_of_stepDone hp hdone] at hidle
            simp [firstStep_eq_idle hidle] at hleft
        · exact ⟨x, hx, hx'.le, hmade⟩
      refine ⟨_, k, n, n.lt_succ_self, ⟨hcheck, hk, hholds, hmade, ?_, ?_⟩, ?_⟩
      · rw [hstate]
        show nextState cfg (r.state n) (r.input n) = .idle
        rw [nextState, if_pos hdone, hidle]
      · rw [hrsp]
        simp [nextRsp, hans]
      · intro x hx hx'
        obtain rfl : x = n + 1 := by omega
        exact hok
    · obtain ⟨line, k, e, he, hs, hstands⟩ := ih (hrun.mono n.le_succ) (rspFsm_ok hok')
      refine ⟨line, k, e, by omega, hs, ?_⟩
      intro x hx hx'
      rcases Nat.lt_succ_iff_lt_or_eq.1 (Nat.lt_succ_of_le hx') with hlt | rfl
      · exact hstands x hx (Nat.le_of_lt_succ hlt)
      · exact hok

/-- What a success rests on: a `lwarx` of the line that read in cycle `j` and was
answered in cycle `m`, nothing that breaks its reservation up to the check in cycle
`k`, and every snoop of the line retried up to the answer in cycle `e`. -/
structure Justified (r : Run (machine cfg)) (j m k e line : ℕ) : Prop where
  order : j ≤ m ∧ m < k ∧ k < e
  reads : LwarxReads r j line
  answers : LwarxAnswers r m line
  same : served r j = served r m
  succeeds : StwcxSucceeds r k e line
  unbroken : Quiet (Breaks r line) j k
  retried : ∀ x, k < x → x ≤ e → SnoopRetried r x line

/-- **Reservation soundness.** -/
theorem stwcx_sound (r : Run (machine cfg)) (N : ℕ) (hp : ReadPort r N) (n : ℕ) (hn : n ≤ N)
    (hok : (r.state n).rsp.ok = true) :
    ∃ line j m k e, e < n ∧ Justified r j m k e line ∧
      ∀ x, e < x → x ≤ n → (r.state x).rsp.ok = true := by
  obtain ⟨line, k, e, he, hs, hstands⟩ := succeeds_run (hp.running.mono hn) hok
  obtain ⟨⟨hgo, hop⟩, hmatch, hline⟩ := hs.check
  simp only [resvMatch, Bool.and_eq_true, decide_eq_true_eq] at hmatch
  have hlt := hs.lt
  have hlink := link_run hp (by omega) hmatch.1
  rw [hmatch.2, hline] at hlink
  cases hlink with
  | linked j m reads answers same le lt quiet =>
    exact ⟨line, j, m, k, e, he, ⟨⟨le, lt, hlt⟩, reads, answers, same, hs, quiet,
      fun x hx hx' => snoopRetried_of_holds hs.holds hx hx'⟩, hstands⟩
  | reading j reads answering same lt quiet => simp [answering.op] at hop
  | pending unread line_eq => simp [unread.op] at hop

end Checked

/-! ## Two runs -/

/-- `dcbz` brings line 0 in; a `lwarx` and a `stwcx.` hit it. -/
def atomicInputs : ℕ → Input
  | 0 => { hid0Dce := true, reqValid := true, reqOp := .dcbz }
  | 8 => { hid0Dce := true, reqValid := true, reqOp := .lwarx }
  | 12 => { hid0Dce := true, reqValid := true, reqOp := .stwcx }
  | _ => { hid0Dce := true, rspReady := true }

/-- The run of these inputs from reset. -/
def atomicRun : Run (machine config602) where
  start := step config602 default { rstN := false }
  initial := initial_reset config602
  input := atomicInputs

theorem stwcx_sound_atomicRun :
    ∃ line j m k e, e < 15 ∧ Justified atomicRun j m k e line ∧
      ∀ x, e < x → x ≤ 15 → (atomicRun.state x).rsp.ok = true := by
  refine stwcx_sound atomicRun 15 ⟨?_, ?_⟩ 15 le_rfl (by decide +kernel)
  · intro k hk
    interval_cases k <;> rfl
  · have hnone : ∀ n < 15, ¬ ReadWait (atomicRun.state n) := by decide +kernel
    intro n hn hack
    exact absurd hack.2.1 (hnone n (by omega))

/-- A caching-inhibited `lwarx` whose read ends in an error, then a `stwcx.`; a
probe of kill class arrives between the two, a snoop of type clean block between
the check and the write. -/
def failedReadInputs : ℕ → Input
  | 0 => { reqValid := true, reqOp := .lwarx, reqWimg := ⟨false, true, false, false⟩ }
  | 2 => { busReqReady := true }
  | 3 => { busReqAcked := true, busRdValid := true, busRdError := true }
  | 4 => { rspReady := true, snoopValid := true, snoopTt := TT.kill, snoopProbe := true }
  | 5 => { reqValid := true, reqOp := .stwcx, reqWimg := ⟨false, true, false, false⟩ }
  | 6 => { snoopValid := true, snoopTt := TT.clean }
  | 8 => { busReqReady := true }
  | _ => {}

/-- The run of these inputs from reset. -/
def failedReadRun : Run (machine config602) where
  start := step config602 default { rstN := false }
  initial := initial_reset config602
  input := failedReadInputs

/-- The `stwcx.` succeeds although no `lwarx` was answered without error, a snoop
of kill class of its line went unretried, and so did one during its write. -/
theorem stwcx_after_failed_read : ReadPort failedReadRun 9 ∧
    (failedReadRun.state 9).rsp.ok = true ∧ StwcxChecks failedReadRun 6 0 ∧
    (∀ m < 9, (failedReadRun.state m).reqOp = .lwarx →
      (failedReadRun.state (m + 1)).rsp.valid = true →
        (failedReadRun.state (m + 1)).rsp.error = true) ∧
    ((failedReadRun.state 5).snpValid = true ∧ snpLine (failedReadRun.state 5) = 0 ∧
      snpClass (failedReadRun.state 5) = .kill ∧
      sArtry config602 (failedReadRun.state 5) (failedReadRun.input 5) = false) ∧
    ((failedReadRun.state 7).snpValid = true ∧ snpLine (failedReadRun.state 7) = 0 ∧
      (failedReadRun.state 7).state = .swriteReq ∧
      sArtry config602 (failedReadRun.state 7) (failedReadRun.input 7) = false) := by
  refine ⟨⟨?_, ?_⟩, by decide +kernel, ⟨⟨by decide +kernel, by decide +kernel⟩, by decide +kernel,
    by decide +kernel⟩, by decide +kernel, by decide +kernel, by decide +kernel⟩
  · intro k hk
    interval_cases k <;> rfl
  · have hnone : ∀ n < 9, ReadWait (failedReadRun.state n) → ¬ ReadWait (failedReadRun.state (n + 1)) := by
      decide +kernel
    intro n hn hack hwait
    exact absurd hwait (hnone n (by omega) hack.2.1)

end Dcache
end SloPPC603
