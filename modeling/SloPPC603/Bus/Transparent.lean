import SloPPC603.Bus.Narrow

/-!
# What a 32-bit bus carries

* `wordsOf`, `putWords` — the words of a write, and those the pins took.
* `Writes`, `writes_step` — the words on DH against the master's beat counter.
* `Transparent`, `transparent_run` — what the master sees and drives.
* `cancelled_write` — DRTRY during a write.
-/

namespace SloPPC603
namespace Bus
namespace Narrow

open Clocked
open CacheMaster (Log PushLog Phase curAttributes attributes pushAttributes beats writeData lineBeat)
open Dbw32 (joinWords dh dl)

/-! ## The words of a write -/

/-- The words of one beat of the master. -/
def beatWords (pair low : Bool) (d : BitVec 64) : List (BitVec 32) :=
  if pair then [dh d, dl d] else [if low then dl d else dh d]

/-- The words of the first beats of a write. -/
def wordsOf (pair low : Bool) (data : BitVec 2 → BitVec 64) (n : ℕ) : List (BitVec 32) :=
  (List.range n).flatMap fun b => beatWords pair low (data (BitVec.ofNat 2 b))

@[simp] theorem wordsOf_zero (pair low : Bool) (data : BitVec 2 → BitVec 64) :
    wordsOf pair low data 0 = [] := rfl

theorem wordsOf_succ (pair low : Bool) (data : BitVec 2 → BitVec 64) (n : ℕ) :
    wordsOf pair low data (n + 1) =
      wordsOf pair low data n ++ beatWords pair low (data (BitVec.ofNat 2 n)) := by
  simp [wordsOf, List.range_succ, List.flatMap_append]

theorem wordsOf_prefix (pair low : Bool) (data : BitVec 2 → BitVec 64) {m n : ℕ} (h : m ≤ n) :
    wordsOf pair low data m <+: wordsOf pair low data n := by
  induction n, h using Nat.le_induction with
  | base => exact List.prefix_refl _
  | succ n _ ih =>
    rw [wordsOf_succ]
    exact ih.trans (List.prefix_append _ _)

/-- The data of the tenure in progress. -/
def curData (s : CacheMaster.State) (b : BitVec 2) : BitVec 64 :=
  if s.actPush then lineBeat s.puData b
  else if s.rqKind = CacheMaster.kWriteBurst then lineBeat s.rqData b
  else s.rqData.setWidth 64

/-- The words the pins took in the write tenure in progress, or in the last one. -/
def putWords (ws : List (BitVec 32)) (s : State) (i : CacheMaster.Input) : List (BitVec 32) :=
  if !i.rstN then []
  else if !i.busCe then ws
  else if s.master.state = .addrTransfer then []
  else if s.master.state = .writeBeat && !i.pins.taN && i.pins.teaN then ws ++ [dataHigh s i]
  else ws

/-- The words of the tenure in progress. -/
def curWords (s : CacheMaster.State) (n : ℕ) : List (BitVec 32) :=
  wordsOf (paired (curAttributes s)) (s.curA.getLsbD 2) (curData s) n

/-- The first word of the beat, once the pins have taken it. -/
def firstWord (s : State) : List (BitVec 32) :=
  if s.tracker.half = .h0Conf ∨ s.tracker.half = .h1Wait then
    [dh (curData s.master s.master.beat)]
  else []

/-- A bus edge on which DRTRY does not follow a TA of a write in doublewords. -/
def Uncancelled (s : State) (i : CacheMaster.Input) : Prop :=
  i.busCe = true → s.master.state = .writeBeat → s.tracker.pair = true →
    s.tracker.half = .h0Conf ∨ s.tracker.half = .h1Conf → i.pins.drtryN = true

instance (s : State) (i : CacheMaster.Input) : Decidable (Uncancelled s i) :=
  inferInstanceAs (Decidable (_ → _ → _ → _ → _))

/-- The words on DH against the master's beat counter. -/
structure Writes (s : State) (ws : List (BitVec 32)) : Prop where
  before : s.master.state = .addrWait ∨ s.master.state = .addrRetrySample ∨
    s.master.state = .dataRequest → ws = []
  counts : s.master.state = .writeBeat → s.master.beat.toNat ≤ s.master.lastBeat.toNat
  pair : s.master.state = .writeBeat → s.tracker.pair = true →
    s.tracker.half ≠ .h0Repl ∧ s.tracker.half ≠ .h1Repl ∧
      ws = curWords s.master s.master.beat.toNat ++ firstWord s
  single : s.master.state = .writeBeat → s.tracker.pair = false →
    ws = curWords s.master s.master.beat.toNat
  release : s.master.state = .dataRelease → s.master.err = false →
    ws = curWords s.master (s.master.lastBeat.toNat + 1)

section Step

variable {s : State} {i : CacheMaster.Input} {ws : List (BitVec 32)}

/-- A beat of a write leaves the tenure as it was. -/
theorem write_frame (hr : i.rstN = true) (hb : i.busCe = true)
    (hst : s.master.state = .writeBeat) (hv : s.master.actPush = true → s.master.puValid = true) :
    curData (step s i).master = curData s.master ∧
      curAttributes (step s i).master = curAttributes s.master ∧
      (step s i).master.lastBeat = s.master.lastBeat := by
  have hk : CacheMaster.Kept s.master (step s i).master :=
    CacheMaster.kept_step (i := masterIn s i) hr hb (by simp [hst])
      (fun h => nomatch (hst.symm.trans h))
      (fun h => nomatch (hst.symm.trans h))
  refine ⟨funext fun b => ?_, hk.pins, hk.last⟩
  rw [curData, curData, hk.actPush, hk.kind, hk.data]
  cases hp : s.master.actPush with
  | false => rfl
  | true =>
    have hslot := CacheMaster.pushSlot_step (s := s.master) (i := masterIn s i) hr hb
      fun h => nomatch (hst.symm.trans h)
    have hno : CacheMaster.pushAccept s.master (masterIn s i) = false := by
      simp [CacheMaster.pushAccept, CacheMaster.pushReady, hv hp]
    rw [CacheMaster.pushSlot_taken, hno, if_neg Bool.false_ne_true] at hslot
    have hdata : (step s i).master.puData = s.master.puData := congrArg (fun x => x.2.2.1) hslot
    rw [hdata]

theorem curWords_frame {m m' : CacheMaster.State} (hd : curData m' = curData m)
    (ha : curAttributes m' = curAttributes m) : curWords m' = curWords m := by
  have hcur : m'.curA = m.curA := congrArg Attributes.a ha
  funext n
  rw [curWords, curWords, hd, ha, hcur]

/-- The master's edge of a write beat. -/
theorem write_state (hr : i.rstN = true) (hb : i.busCe = true)
    (hst : s.master.state = .writeBeat) :
    (step s i).master.state =
        (if !i.pins.teaN ||
            (!Dbw32.mTaN s.tracker (trackerIn s i) && s.master.beat = s.master.lastBeat)
          then .dataRelease else .writeBeat) ∧
      (step s i).master.err = (s.master.err || !i.pins.teaN) ∧
      (step s i).master.beat =
        if i.pins.teaN && !Dbw32.mTaN s.tracker (trackerIn s i) &&
          s.master.beat ≠ s.master.lastBeat then s.master.beat + 1 else s.master.beat := by
  rw [step_master, CacheMaster.step_bus (i := masterIn s i) hr hb]
  simp only [CacheMaster.edge, hst]
  have htea : (masterIn s i).pins.teaN = i.pins.teaN := rfl
  have hta : (masterIn s i).pins.taN = Dbw32.mTaN s.tracker (trackerIn s i) := rfl
  rw [htea, hta]
  cases i.pins.teaN <;> cases Dbw32.mTaN s.tracker (trackerIn s i) <;>
    by_cases hbl : s.master.beat = s.master.lastBeat <;> simp [hbl, hst]

theorem curWords_succ (m : CacheMaster.State) : curWords m (m.beat.toNat + 1) =
    curWords m m.beat.toNat ++
      beatWords (paired (curAttributes m)) (m.curA.getLsbD 2) (curData m m.beat) := by
  rw [curWords, wordsOf_succ, BitVec.ofNat_toNat, BitVec.setWidth_eq]
  rfl

section Beat

variable (hr : i.rstN = true) (hb : i.busCe = true) (hst : s.master.state = .writeBeat)
  (hv : s.master.actPush = true → s.master.puValid = true) (htea : i.pins.teaN = true)
  (hcount : s.master.beat.toNat ≤ s.master.lastBeat.toNat)
include hr hb hst hv htea hcount

/-- An edge on which the master is told of no TA. -/
theorem writes_hold (hta : Dbw32.mTaN s.tracker (trackerIn s i) = true)
    (hpair : (step s i).tracker.pair = true →
      (step s i).tracker.half ≠ .h0Repl ∧ (step s i).tracker.half ≠ .h1Repl ∧
        ws = curWords s.master s.master.beat.toNat ++ firstWord (step s i))
    (hsingle : (step s i).tracker.pair = false → ws = curWords s.master s.master.beat.toNat) :
    Writes (step s i) ws := by
  obtain ⟨hd, ha, hl⟩ := write_frame hr hb hst hv
  obtain ⟨hst', -, hbeat⟩ := write_state hr hb hst
  simp only [htea, hta, Bool.not_true, Bool.false_and, Bool.or_self, Bool.false_eq_true, if_false,
    Bool.and_false] at hst' hbeat
  have hw := curWords_frame hd ha
  refine ⟨fun h => ?_, fun _ => ?_, fun _ hp => ?_, fun _ hp => ?_, fun h => ?_⟩
  · simp [hst'] at h
  · rw [hbeat, hl]
    exact hcount
  · rw [hw, hbeat]
    exact hpair hp
  · rw [hw, hbeat]
    exact hsingle hp
  · simp [hst'] at h

/-- An edge on which it is told of one. -/
theorem writes_beat (hta : Dbw32.mTaN s.tracker (trackerIn s i) = false)
    (hhalf : (step s i).tracker.pair = true → (step s i).tracker.half = .h1Conf)
    (hws : ws = curWords s.master (s.master.beat.toNat + 1)) : Writes (step s i) ws := by
  obtain ⟨hd, ha, hl⟩ := write_frame hr hb hst hv
  obtain ⟨hst', herr, hbeat⟩ := write_state hr hb hst
  have hw := curWords_frame hd ha
  simp only [htea, hta, Bool.not_true, Bool.not_false, Bool.true_and, Bool.false_or,
    decide_eq_true_eq, decide_not, Bool.not_eq_true', decide_eq_false_iff_not] at hst' hbeat
  by_cases hlast : s.master.beat = s.master.lastBeat
  · rw [if_pos hlast] at hst'
    refine ⟨fun h => ?_, fun h => ?_, fun h => ?_, fun h => ?_, fun _ _ => ?_⟩
    · simp [hst'] at h
    · simp [hst'] at h
    · simp [hst'] at h
    · simp [hst'] at h
    · rw [hw, hl, ← hlast]
      exact hws
  · rw [if_neg hlast] at hst'
    rw [if_pos hlast] at hbeat
    -- the counter does not wrap before the last beat
    have hlt : s.master.beat.toNat < s.master.lastBeat.toNat :=
      Nat.lt_of_le_of_ne hcount fun h => hlast (BitVec.eq_of_toNat_eq h)
    have hsucc : (s.master.beat + 1).toNat = s.master.beat.toNat + 1 := by
      have hlt4 := s.master.lastBeat.isLt
      have hone : (1 : BitVec 2).toNat = 1 := rfl
      rw [BitVec.toNat_add, hone]
      omega
    refine ⟨fun h => ?_, fun _ => ?_, fun _ hp => ?_, fun _ hp => ?_, fun h => ?_⟩
    · simp [hst'] at h
    · rw [hbeat, hl, hsucc]
      exact hlt
    · rw [hw, hbeat, hsucc, firstWord, hhalf hp]
      simp [hws]
    · rw [hw, hbeat, hsucc]
      exact hws
    · simp [hst'] at h

end Beat

/-- An edge of a write beat. -/
theorem writes_write (hr : i.rstN = true) (hb : i.busCe = true)
    (hst : s.master.state = .writeBeat) (hv : s.master.actPush = true → s.master.puValid = true)
    (hshape : s.tracker.pair = paired (curAttributes s.master) ∧
      s.tracker.low = s.master.curA.getLsbD 2)
    (hq : Uncancelled s i) (h : Writes s ws) : Writes (step s i) (putWords ws s i) := by
  have hcount := h.counts hst
  have hput : putWords ws s i =
      if !i.pins.taN && i.pins.teaN then ws ++ [dataHigh s i] else ws := by
    simp [putWords, hr, hb, hst]
  have hout : (trackerIn s i).mD = curData s.master s.master.beat := rfl
  have hown : (trackerIn s i).mDbbOe = true := by
    simp [trackerIn, CacheMaster.out, hst, hr]
  have hts : (trackerIn s i).mTs = false := by simp [trackerIn_mTs hr, hst]
  have hpair' : (step s i).tracker.pair = s.tracker.pair := by
    simp [step, Dbw32.step, hts, show (trackerIn s i).rstN = true from hr,
      show (trackerIn s i).busCe = true from hb]
  rw [hput]
  cases htea : i.pins.teaN with
  | false =>
    obtain ⟨hst', herr, -⟩ := write_state hr hb hst
    simp only [htea, Bool.not_false, Bool.true_or, if_true, Bool.or_true] at hst' herr
    refine ⟨fun h => ?_, fun h => ?_, fun h => ?_, fun h => ?_, fun _ h => ?_⟩
    · simp [hst'] at h
    · simp [hst'] at h
    · simp [hst'] at h
    · simp [hst'] at h
    · simp [herr] at h
  | true =>
    rw [Bool.and_true]
    cases hp : s.tracker.pair with
    | false =>
      obtain ⟨hm, hdata⟩ := Dbw32.write_single (i := trackerIn s i) rfl hp
      have hws := h.single hst hp
      rw [hp] at hpair' hshape
      cases hta : i.pins.taN with
      | true =>
        refine writes_hold hr hb hst hv htea hcount (hm.trans hta) (fun hn => ?_) fun _ => hws
        rw [hpair'] at hn
        cases hn
      | false =>
        refine writes_beat hr hb hst hv htea hcount (hm.trans hta) (fun hn => ?_) ?_
        · rw [hpair'] at hn
          cases hn
        · rw [Bool.not_false, if_pos rfl, curWords_succ, ← hshape.1, ← hshape.2, hws, beatWords,
            if_neg Bool.false_ne_true, dataHigh, hdata, hout]
    | true =>
      obtain ⟨hn0, hn1, hws⟩ := h.pair hst hp
      rw [hp] at hpair' hshape
      have hdr : s.tracker.half = .h0Conf ∨ s.tracker.half = .h1Conf →
          (trackerIn s i).drtryN = true := hq hb hst hp
      have hhalf : (s.tracker.half = .h0Wait ∨ (s.tracker.half = .h1Conf ∧
          (trackerIn s i).drtryN = true)) ∨ (s.tracker.half = .h1Wait ∨
            (s.tracker.half = .h0Conf ∧ (trackerIn s i).drtryN = true)) := by
        cases hh : s.tracker.half <;> simp_all
      rcases hhalf with hhalf | hhalf
      · obtain ⟨hm, hdata, hnext⟩ := Dbw32.write_first hr hb rfl hp hts hown htea hhalf
        have hfirst : firstWord s = [] := by
          rcases hhalf with hh | ⟨hh, -⟩ <;> simp [firstWord, hh]
        have hnext' : (step s i).tracker.half = if i.pins.taN then .h0Wait else .h0Conf := hnext
        rw [hfirst, List.append_nil] at hws
        obtain ⟨hd, -, -⟩ := write_frame hr hb hst hv
        have hbeat := (write_state hr hb hst).2.2
        rw [hm] at hbeat
        simp only [Bool.not_true, Bool.and_false, Bool.false_and, Bool.false_eq_true,
          if_false] at hbeat
        refine writes_hold hr hb hst hv htea hcount hm (fun _ => ?_) fun hn => ?_
        · cases hta : i.pins.taN with
          | true =>
            rw [hta, if_pos rfl] at hnext'
            simp [hnext', firstWord, hws]
          | false =>
            rw [hta, if_neg Bool.false_ne_true] at hnext'
            simp [hnext', firstWord, hws, hd, hbeat, dataHigh, hdata, hout]
        · rw [hpair'] at hn
          cases hn
      · obtain ⟨hm, hdata, hnext⟩ := Dbw32.write_second hr hb rfl hp hts hown htea hhalf
        have hfirst : firstWord s = [dh (curData s.master s.master.beat)] := by
          rcases hhalf with hh | ⟨hh, -⟩ <;> simp [firstWord, hh]
        have hnext' : (step s i).tracker.half = if i.pins.taN then .h1Wait else .h1Conf := hnext
        rw [hfirst] at hws
        cases hta : i.pins.taN with
        | true =>
          rw [hta, if_pos rfl] at hnext'
          have hm' : Dbw32.mTaN s.tracker (trackerIn s i) = true := hm.trans hta
          obtain ⟨hd, -, -⟩ := write_frame hr hb hst hv
          have hbeat := (write_state hr hb hst).2.2
          rw [hm'] at hbeat
          simp only [Bool.not_true, Bool.and_false, Bool.false_and, Bool.false_eq_true,
            if_false] at hbeat
          refine writes_hold hr hb hst hv htea hcount hm' (fun _ => ?_) fun hn => ?_
          · simp [hnext', firstWord, hws, hd, hbeat]
          · rw [hpair'] at hn
            cases hn
        | false =>
          rw [hta, if_neg Bool.false_ne_true] at hnext'
          refine writes_beat hr hb hst hv htea hcount (hm.trans hta) (fun _ => hnext') ?_
          rw [Bool.not_false, if_pos rfl, curWords_succ, ← hshape.1, hws, beatWords, if_pos rfl,
            dataHigh, hdata, hout, List.append_assoc]
          rfl

/-- The phases of a tenure up to its data, one edge back. -/
theorem phase_before (hr : i.rstN = true) (hb : i.busCe = true) :
    ((step s i).master.state = .addrWait → s.master.state = .addrTransfer ∨
      s.master.state = .addrWait) ∧
    ((step s i).master.state = .addrRetrySample → s.master.state = .addrWait) ∧
    ((step s i).master.state = .dataRequest →
      s.master.state = .addrRetrySample ∨ s.master.state = .dataRequest) ∧
    ((step s i).master.state = .writeBeat →
      s.master.state = .dataRequest ∨ s.master.state = .writeBeat) ∧
    ((step s i).master.state = .dataRelease →
      s.master.state = .writeBeat ∨ (step s i).master.err = true) := by
  have hstate := CacheMaster.taken_state s.master (masterIn s i)
  rw [step_master, CacheMaster.step_bus (i := masterIn s i) hr hb]
  unfold CacheMaster.edge
  generalize CacheMaster.taken s.master (masterIn s i) = b at hstate
  cases hst : s.master.state <;> dsimp only <;> (try split_ifs) <;> simp_all

/-- **An edge keeps the words on DH against the beat counter.** -/
theorem writes_step {l : Log} {k : HalfLog} {p : PushLog} (ht : Tracks s l k)
    (hpush : CacheMaster.PushInv s.master p) (hq : Uncancelled s i) (h : Writes s ws) :
    Writes (step s i) (putWords ws s i) := by
  cases hr : i.rstN with
  | false =>
    have hm : (step s i).master.state = .idle := by
      simp [step_master, CacheMaster.step, hr, CacheMaster.reset]
    refine ⟨?_, ?_, ?_, ?_, ?_⟩ <;> rw [hm]
    · rintro (h | h | h) <;> cases h
    · rintro ⟨⟩
    · rintro ⟨⟩
    · rintro ⟨⟩
    · rintro ⟨⟩
  | true =>
    cases hb : i.busCe with
    | false =>
      have hs : step s i =
          ⟨s.tracker, { s.master with slow := s.master.slow || !i.busCe }⟩ := by
        simp [step, CacheMaster.step, Dbw32.step, trackerIn, hr, hb]
      have hw : putWords ws s i = ws := by simp [putWords, hr, hb]
      rw [hs, hw]
      exact ⟨h.before, h.counts, h.pair, h.single, h.release⟩
    | true =>
      by_cases hst : s.master.state = .writeBeat
      · refine writes_write hr hb hst (fun hp => ?_) (ht.shape (by simp [hst, shaped])) hq h
        exact (CacheMaster.pushing_of_inv hpush (by simp [hst]) hp).1
      · have hput : putWords ws s i = if s.master.state = .addrTransfer then [] else ws := by
          simp [putWords, hr, hb, hst]
        obtain ⟨haw, hars, hdr, hwb, hrel⟩ := phase_before (s := s) (i := i) hr hb
        -- a write begins with nothing taken
        have hbegin : (step s i).master.state = .writeBeat → putWords ws s i = [] ∧
            (step s i).master.beat = 0 ∧ (step s i).tracker.half = .h0Wait := by
          intro hn
          have hreq : s.master.state = .dataRequest := (hwb hn).resolve_right hst
          have hu : unstarted s.master.state = true := by simp [hreq, unstarted]
          refine ⟨?_, ?_, half_step hr hb hu (ht.start (by simp [hreq, shaped]) hu)⟩
          · rw [hput, if_neg (by simp [hreq])]
            exact h.before (.inr (.inr hreq))
          · rw [step_master, CacheMaster.step_bus (i := masterIn s i) hr hb, ← ht.beat hu]
            simp only [CacheMaster.edge, hreq]
            split_ifs <;> exact CacheMaster.taken_beat _ _
        refine ⟨?_, fun hn => ?_, fun hn hp => ?_, fun hn hp => ?_, fun hn herr => ?_⟩
        · rintro (hn | hn | hn)
          · rcases haw hn with h' | h'
            · rw [hput, if_pos h']
            · rw [hput, if_neg (by simp [h'])]
              exact h.before (.inl h')
          · rw [hput, if_neg (by simp [hars hn])]
            exact h.before (.inl (hars hn))
          · rcases hdr hn with h' | h' <;> rw [hput, if_neg (by simp [h'])]
            · exact h.before (.inr (.inl h'))
            · exact h.before (.inr (.inr h'))
        · obtain ⟨-, hbeat, -⟩ := hbegin hn
          rw [hbeat]
          exact Nat.zero_le _
        · obtain ⟨hw, hbeat, hhalf⟩ := hbegin hn
          rw [hw, hbeat, firstWord, hhalf]
          simp [curWords]
        · obtain ⟨hw, hbeat, -⟩ := hbegin hn
          rw [hw, hbeat]
          rfl
        · rcases hrel hn with h' | h'
          · exact absurd h' hst
          · rw [h'] at herr
            cases herr

end Step

/-! ## Over a run -/

/-- The master's log. -/
def log (r : Run machine) (n : ℕ) : Log := CacheMaster.log (masterRun r) n

/-- The log of its pushes. -/
def pushLog (r : Run machine) (n : ℕ) : PushLog := CacheMaster.pushLog (masterRun r) n

/-- What the pins answered. -/
def halfLog (r : Run machine) (n : ℕ) : HalfLog :=
  r.history ⟨[], []⟩ (fun k s i => k.update s i) n

/-- The words the pins took. -/
def words (r : Run machine) (n : ℕ) : List (BitVec 32) := r.history [] putWords n

theorem tracks_run (r : Run machine) (n : ℕ) : Tracks (r.state n) (log r n) (halfLog r n) := by
  induction n with
  | zero =>
    obtain ⟨-, -, -, s₀, hs⟩ := r.initial
    have hm : r.start.master.state = .idle ∧ r.start.master.finalReleaseStarted = false := by
      rw [hs]
      exact ⟨rfl, rfl⟩
    have hbeat : r.start.master.beat = 0 := by
      rw [hs]
      rfl
    rw [Run.state_zero]
    refine ⟨?_, ?_, fun _ => hbeat, ?_, rfl, judged_nil _, nofun, ?_⟩ <;> rw [hm.1]
    · exact nofun
    · exact nofun
    · rw [hm.2]
      exact nofun
    · exact nofun
  | succ n ih =>
    have hinv := CacheMaster.inv_run (masterRun r) n
    have hnext := CacheMaster.inv_run (masterRun r) (n + 1)
    rw [masterRun_state] at hinv hnext
    rw [Run.state_succ] at hnext ⊢
    have hlog : log r (n + 1) =
        (log r n).update (r.state n).master (masterIn (r.state n) (r.input n)) := by
      rw [log, CacheMaster.log, Run.history_succ, masterRun_state]
      rfl
    have hlog' : CacheMaster.log (masterRun r) (n + 1) = log r (n + 1) := rfl
    rw [hlog', hlog] at hnext
    rw [hlog]
    exact tracks_step hinv hnext ih

/-- DRTRY never follows a TA of a write in doublewords. -/
theorem writes_run (r : Run machine) (n : ℕ) (h : r.Obeys Uncancelled n) :
    Writes (r.state n) (words r n) := by
  induction n with
  | zero =>
    obtain ⟨-, -, -, s₀, hs⟩ := r.initial
    have hm : r.start.master.state = .idle := by
      rw [hs]
      rfl
    rw [Run.state_zero]
    refine ⟨?_, ?_, ?_, ?_, ?_⟩ <;> rw [hm]
    · rintro (h | h | h) <;> cases h
    · exact nofun
    · exact nofun
    · exact nofun
    · exact nofun
  | succ n ih =>
    have hpush := CacheMaster.pushInv_run (masterRun r) n
    rw [masterRun_state] at hpush
    rw [Run.state_succ]
    exact writes_step (tracks_run r n) hpush (h n (Nat.lt_succ_self n))
      (ih fun m hm => h m (Nat.lt_succ_of_lt hm))

/-- A push has the beats of a line. -/
theorem push_beats (r : Run machine) (n : ℕ) (hs : (r.state n).master.state ≠ .idle)
    (hp : (r.state n).master.actPush = true) : (r.state n).master.lastBeat = 3 := by
  induction n with
  | zero =>
    obtain ⟨-, -, -, s₀, h⟩ := r.initial
    rw [Run.state_zero, h] at hs
    exact absurd rfl hs
  | succ n ih =>
    rw [Run.state_succ] at hs hp ⊢
    generalize hi : r.input n = i at hs hp ⊢
    generalize r.state n = s at ih hs hp ⊢
    have hst : (machine.step s i).master = CacheMaster.step s.master (masterIn s i) := rfl
    rw [hst] at hs hp ⊢
    cases hr : i.rstN with
    | false => simp [CacheMaster.step, hr, CacheMaster.reset] at hs
    | true =>
      cases hb : i.busCe with
      | false =>
        simp [CacheMaster.step, hr, hb] at hs hp ⊢
        exact ih hs hp
      | true =>
        by_cases hidle : s.master.state = .idle
        · rw [CacheMaster.step_bus (i := masterIn s i) hr hb] at hs hp ⊢
          simp only [CacheMaster.edge, hidle] at hs hp ⊢
          split_ifs at hs hp ⊢ <;> simp_all [CacheMaster.loadTenure]
        · rw [(CacheMaster.curAttributes_step (i := masterIn s i) hr hb hidle).1] at hp
          rw [CacheMaster.lastBeat_step (i := masterIn s i) hr hb hidle]
          exact ih hidle hp

/-! ### Transparency -/

section Tenure

variable (s : CacheMaster.State) (l : Log) (p : PushLog)

/-- The attributes of the tenure in progress. -/
def tenureAttributes : Attributes :=
  if s.actPush then pushAttributes p.push else attributes l.req l.part

/-- The doublewords it writes. -/
def tenureData (b : BitVec 2) : BitVec 64 :=
  if s.actPush then lineBeat p.push.pushData b else writeData l.req b

/-- How many there are. -/
def tenureBeats : ℕ := if s.actPush then 4 else beats l.req

/-- The words of the write tenure in progress. -/
def tenureWords : List (BitVec 32) :=
  wordsOf (paired (tenureAttributes s l p)) ((tenureAttributes s l p).a.getLsbD 2)
    (tenureData s l p) (tenureBeats s l)

end Tenure

/-- The 32-bit bus is transparent to its 64-bit master. -/
structure Transparent (s : State) (i : CacheMaster.Input) (l : Log) (p : PushLog) (k : HalfLog)
    (ws : List (BitVec 32)) : Prop where
  /-- The master gives its requests what it is answered. -/
  delivers : CacheMaster.Delivers s.master (masterIn s i) l p
  /-- Its standing doublewords are the standing beats of the pins, joined in order. -/
  cur : Judged (paired (attributes l.req l.part)) l.edges k.edges
  fst : l.part = true → Judged (paired (attributes l.req false)) l.first k.first
  /-- It is told nothing of a DRTRY on a first beat. -/
  firstBeat : s.master.state.reads = true → paired (attributes l.req l.part) = true →
    Unjudged (Reader.run (2 * beats l.req) k.edges) → Whole (standing k.edges) →
    i.pins.drtryN = false →
      (masterIn s i).pins.taN = true ∧ (masterIn s i).pins.drtryN = true
  /-- One on a second beat keeps the high word. -/
  secondBeat : s.master.state.reads = true → paired (attributes l.req l.part) = true →
    Unjudged (Reader.run (2 * beats l.req) k.edges) → ¬ Whole (standing k.edges) →
    i.pins.drtryN = false →
      (masterIn s i).pins.drtryN = false ∧ (step s i).tracker.high = s.tracker.high
  /-- The pins take the words of a write in order. -/
  words : s.master.state = .writeBeat → ws <+: tenureWords s.master l p
  whole : s.master.state = .dataRelease → s.master.err = false → ws = tenureWords s.master l p
  /-- A tenure begins with a tracker that has nothing of the last one. -/
  fresh : s.master.state = .addrTransfer → i.rstN = true → i.busCe = true →
    (step s i).tracker.half = .h0Wait ∧
      (step s i).tracker.pair = paired (tenureAttributes s.master l p) ∧
      (step s i).tracker.low = (tenureAttributes s.master l p).a.getLsbD 2

section Inv

variable {s : CacheMaster.State} {l : Log} {p : PushLog}

/-- The attributes of a tenure are those of what it is for. -/
theorem tenureAttributes_eq (hinv : CacheMaster.Inv s l) (hpush : CacheMaster.PushInv s p)
    (hst : s.state = .addrTransfer ∨ s.state = .writeBeat ∨ s.state = .dataRelease) :
    curAttributes s = tenureAttributes s l p := by
  have hs : s.state ≠ .idle := by rcases hst with h | h | h <;> simp [h]
  unfold tenureAttributes
  cases hp : s.actPush with
  | true => exact (CacheMaster.pushing_of_inv hpush hs hp).2.1
  | false =>
    have hact := CacheMaster.active_of_inv hinv hs hp
    rcases hst with h | h | h <;> rw [h] at hact
    · exact hact.pins
    · exact hact.2.1.pins
    · exact hact.2.pins

/-- So are its words. -/
theorem tenureWords_eq (hinv : CacheMaster.Inv s l) (hpush : CacheMaster.PushInv s p)
    (hst : s.state = .writeBeat ∨ s.state = .dataRelease)
    (hlast : s.actPush = true → s.lastBeat = 3) :
    curWords s (s.lastBeat.toNat + 1) = tenureWords s l p := by
  have hs : s.state ≠ .idle := by rcases hst with h | h <;> simp [h]
  have ha : curAttributes s = tenureAttributes s l p :=
    tenureAttributes_eq hinv hpush (.inr hst)
  have hcur : s.curA = (tenureAttributes s l p).a := congrArg Attributes.a ha
  have hdata : curData s = tenureData s l p := by
    funext b
    unfold curData tenureData
    cases hp : s.actPush with
    | true => rw [if_pos rfl, if_pos rfl, (hpush.held (CacheMaster.pushing_of_inv hpush hs hp).1).2.2.1]
    | false =>
      have hq := (CacheMaster.open_of_inv hinv hs hp).1.holds
      rw [if_neg Bool.false_ne_true, if_neg Bool.false_ne_true, hq.kind, hq.data, writeData]
  have hbeats : s.lastBeat.toNat + 1 = tenureBeats s l := by
    unfold tenureBeats
    cases hp : s.actPush with
    | true =>
      rw [hlast hp]
      rfl
    | false =>
      have hact := CacheMaster.active_of_inv hinv hs hp
      rcases hst with h | h <;> rw [h] at hact
      · exact hact.2.1.last
      · exact hact.2.last
  rw [curWords, tenureWords, ha, hcur, hdata, hbeats]

end Inv

/-- **The 32-bit mode is transparent** while DRTRY never follows a TA of a write in
doublewords. -/
theorem transparent_run (r : Run machine) (n : ℕ) (h : r.Obeys Uncancelled n) :
    Transparent (r.state n) (r.input n) (log r n) (pushLog r n) (halfLog r n) (words r n) := by
  have ht := tracks_run r n
  have hw := writes_run r n h
  have hinv : CacheMaster.Inv (r.state n).master (log r n) := by
    have hinv := CacheMaster.inv_run (masterRun r) n
    rwa [masterRun_state] at hinv
  have hpush : CacheMaster.PushInv (r.state n).master (pushLog r n) := by
    have hpush := CacheMaster.pushInv_run (masterRun r) n
    rwa [masterRun_state] at hpush
  have hlast := push_beats r n
  have hshaped : (r.state n).master.state.reads = true → shaped (r.state n).master.state = true := by
    intro hreads
    cases hst : (r.state n).master.state <;> simp [hst, Phase.reads] at hreads <;> rfl
  have hpair : (r.state n).master.state.reads = true →
      paired (attributes (log r n).req (log r n).part) = true → (r.state n).tracker.pair = true := by
    intro hreads hp
    obtain ⟨_, -, hread, -⟩ := reading_of_inv hinv hreads
    rw [(ht.shape (hshaped hreads)).1, hread.pins, hp]
  refine ⟨CacheMaster.delivers_of_inv hinv hpush _, ht.cur, ht.fst, fun hreads hp hu hwhole hd => ?_,
    fun hreads hp hu hodd hd => ?_, fun hst => ?_, fun hst herr => ?_, fun hst hr hb => ?_⟩
  · obtain ⟨hf, ha⟩ := ht.aligned hreads hp
    rw [← hf.kept] at hwhole
    exact Dbw32.first_unseen rfl (hpair hreads hp) (ha.first_of_whole hu hwhole) hd
  · obtain ⟨hf, ha⟩ := ht.aligned hreads hp
    rw [← hf.kept] at hodd
    exact Dbw32.second_seen rfl (hpair hreads hp) (ha.second_of_odd hu hodd) hd
  · have hcount := hw.counts hst
    have heq := tenureWords_eq hinv hpush (.inl hst) (hlast (by simp [hst]))
    rw [← heq]
    cases hp : (r.state n).tracker.pair with
    | false =>
      rw [hw.single hst hp]
      exact wordsOf_prefix _ _ _ (Nat.le_succ_of_le hcount)
    | true =>
      refine List.IsPrefix.trans ?_ ( wordsOf_prefix _ _ _ (Nat.succ_le_succ hcount))
      have hshape := (ht.shape (by simp [hst, shaped])).1
      have hsucc := curWords_succ (r.state n).master
      rw [curWords] at hsucc
      rw [hsucc, ← hshape, hp, (hw.pair hst hp).2.2]
      refine (List.prefix_append_right_inj _).2 ?_
      rw [firstWord, beatWords, if_pos rfl]
      split_ifs <;> simp
  · rw [hw.release hst herr]
    exact tenureWords_eq hinv hpush (.inr hst) (hlast (by simp [hst]))
  · have heq := tenureAttributes_eq hinv hpush (.inl hst)
    rw [← heq]
    have hts : (trackerIn (r.state n) (r.input n)).mTs = true := by simp [trackerIn_mTs hr, hst]
    simp only [step, Dbw32.step, hts, show (trackerIn (r.state n) (r.input n)).rstN = true from hr,
      show (trackerIn (r.state n) (r.input n)).busCe = true from hb]
    exact ⟨by simp, rfl, rfl⟩

/-! ### A write that DRTRY follows -/

/-- A burst write, granted at once: one TA, DRTRY or not, and two more TAs. -/
def burstWrite (drtryN : Bool) : ℕ → CacheMaster.Input
  | 0 => { busCe := true, reqValid := true, reqKind := CacheMaster.kWriteBurst
           reqData := 0x0000000100000002000000030000000400000005000000060000000700000008 }
  | 2 => { busCe := true, pins := { bgN := false } }
  | 4 => { busCe := true, pins := { aackN := false } }
  | 6 => { busCe := true, pins := { dbgN := false } }
  | 7 | 9 | 10 => { busCe := true, pins := { taN := false } }
  | 8 => { busCe := true, pins := { drtryN := drtryN } }
  | _ => { busCe := true }

/-- The run of these inputs. -/
def burstRun (drtryN : Bool) : Run machine where
  start := ⟨⟨.h0Wait, false, false, 0⟩, CacheMaster.reset CacheMaster.powerUp⟩
  initial := ⟨rfl, rfl, rfl, CacheMaster.powerUp, rfl⟩
  input := burstWrite drtryN

theorem transparent_burst : Transparent ((burstRun true).state 11) ((burstRun true).input 11)
    (log (burstRun true) 11) (pushLog (burstRun true) 11) (halfLog (burstRun true) 11)
    (words (burstRun true) 11) :=
  transparent_run (burstRun true) 11 (by unfold Run.Obeys; decide +kernel)

/-- **The tracker takes DRTRY in a write for a cancel**: the pins are shown the first high word
again. -/
theorem cancelled_write : ¬ ∀ (r : Run machine) (n : ℕ), Transparent (r.state n) (r.input n)
    (log r n) (pushLog r n) (halfLog r n) (words r n) := by
  intro h
  have hwords : words (burstRun false) 11 = [1, 2, 1] := by decide +kernel
  have hprefix := (h (burstRun false) 11).words (by decide +kernel)
  rw [hwords] at hprefix
  exact absurd hprefix (by decide +kernel)

end Narrow
end Bus
end SloPPC603
