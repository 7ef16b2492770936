import SloPPC603.Bus.Tenures
import SloPPC603.Bus.Dbw32

/-!
# A 64-bit master on a 32-bit bus

The data cache's bus master behind the half-beat tracker.

* `machine` — the two together.
* `HalfLog`, `WriteLog` — what the pins carried beside a run.
* `Transparent`, `transparent_run` — what the master sees and drives.
* `write_retried` — DRTRY during a write.
-/

namespace SloPPC603
namespace Bus
namespace Narrow

open Clocked
open CacheMaster (Log PushLog Phase curAttributes attributes beats readKind writeData lineBeat)
open Dbw32 (joinWords dup dh dl)

/-! ## The master behind the tracker -/

/-- The registers. -/
structure State where
  tracker : Dbw32.State
  master : CacheMaster.State

section Signals

variable (s : State) (i : CacheMaster.Input)

/-- What the tracker reads; the master's `d_i` is the pins'. -/
def trackerIn : Dbw32.Input :=
  let out := CacheMaster.out s.master i
  { rstN := i.rstN, busCe := i.busCe, dbw32 := true
    mTs := out.tsOe && !out.tsN, mA29 := out.a.getLsbD 2, mTbstN := out.tbstN, mTsiz := out.tsiz
    mDbbOe := out.dbbOe, d := i.d
    taN := i.pins.taN, drtryN := i.pins.drtryN, teaN := i.pins.teaN, mD := out.d }

/-- What the master reads. -/
def masterIn : CacheMaster.Input :=
  let t := trackerIn s i
  { i with
    pins := { i.pins with taN := Dbw32.mTaN s.tracker t, drtryN := Dbw32.mDrtryN s.tracker t }
    d := Dbw32.mDOut s.tracker t }

/-- The clock edge. -/
def step : State where
  tracker := Dbw32.step s.tracker (trackerIn s i)
  master := CacheMaster.step s.master (masterIn s i)

/-- The word on DH. -/
def dataHigh : BitVec 32 := dh (Dbw32.dOut s.tracker (trackerIn s i))

end Signals

/-- The machine: it starts from a reset. -/
def machine : Machine State CacheMaster.Input where
  Initial s := s.tracker.half = .h0Wait ∧ s.tracker.pair = false ∧ s.tracker.low = false ∧
    CacheMaster.machine.Initial s.master
  step := step

/-- The master's own run. -/
def masterRun (r : Run machine) : Run CacheMaster.machine where
  start := r.start.master
  initial := r.initial.2.2.2
  input n := masterIn (r.state n) (r.input n)

theorem masterRun_state (r : Run machine) (n : ℕ) :
    (masterRun r).state n = (r.state n).master := by
  induction n with
  | zero => rfl
  | succ n ih =>
    rw [Run.state_succ, ih]
    rfl

/-! ## What the pins carry -/

/-- The bus edges of the data tenures of the last request, at the pins. -/
structure HalfLog where
  first : List (Answer (BitVec 32))
  edges : List (Answer (BitVec 32))

/-- The same over a clock edge, as the master's own log goes. -/
def HalfLog.update (h : HalfLog) (s : State) (i : CacheMaster.Input) : HalfLog :=
  if !i.rstN then ⟨[], []⟩
  else if !i.busCe then h
  else if CacheMaster.accepts s.master (masterIn s i) then ⟨[], []⟩
  else if CacheMaster.continues s.master then ⟨h.edges, []⟩
  else if s.master.state.reads then
    { h with edges := h.edges ++ [Dbw32.answer (trackerIn s i)] }
  else h

/-- A part of a request has two beats a doubleword. -/
def paired (a : Attributes) : Bool := !a.tbstN || a.tsiz = 0

/-- What the master is answered in a data tenure, against the pins: the standing doublewords are
the standing beats joined in order, or DH on both lanes. -/
def Judged (pair : Bool) (edges : List (Answer (BitVec 64))) (pins : List (Answer (BitVec 32))) :
    Prop :=
  if pair then standing edges = joinAll joinWords (standing pins) else edges = pins.map dup

/-- The address tenure is over. -/
def shaped : Phase → Bool
  | .addrWait | .addrRetrySample | .dataRequest | .readWait | .readConfirm | .readReplace
  | .writeBeat => true
  | _ => false

/-- The data tenure has not begun. -/
def unstarted : Phase → Bool
  | .addrRequest | .addrTransfer | .addrWait | .addrRetrySample | .retryGap | .dataRequest => true
  | _ => false

/-- The tracker against its master's tenure. -/
structure Tracks (s : State) (l : Log) (h : HalfLog) : Prop where
  shape : shaped s.master.state = true →
    s.tracker.pair = paired (curAttributes s.master) ∧ s.tracker.low = s.master.curA.getLsbD 2
  start : shaped s.master.state = true → unstarted s.master.state = true →
    s.tracker.half = .h0Wait
  beat : unstarted s.master.state = true → s.master.beat = 0
  release : s.master.finalReleaseStarted = true →
    unstarted s.master.state = false ∧
      (s.master.state.reads = true → s.master.beat = s.master.lastBeat)
  length : h.edges.length = l.edges.length
  cur : Judged (paired (attributes l.req l.part)) l.edges h.edges
  fst : l.part = true → Judged (paired (attributes l.req false)) l.first h.first
  aligned : s.master.state.reads = true → paired (attributes l.req l.part) = true →
    Reader.Follows (2 * beats l.req) h.edges ∧
      Aligned joinWords ⟨s.tracker.half, s.tracker.high⟩ (Reader.run (2 * beats l.req) h.edges)
        (Reader.run (beats l.req) l.edges)

theorem judged_nil (pair : Bool) : Judged pair [] [] := by
  cases pair <;> simp [Judged]

section Step

variable {s : State} {i : CacheMaster.Input} {l : Log} {k : HalfLog}

@[simp] theorem masterIn_rstN (s : State) (i : CacheMaster.Input) :
    (masterIn s i).rstN = i.rstN := rfl

@[simp] theorem masterIn_busCe (s : State) (i : CacheMaster.Input) :
    (masterIn s i).busCe = i.busCe := rfl

theorem step_master (s : State) (i : CacheMaster.Input) :
    (step s i).master = CacheMaster.step s.master (masterIn s i) := rfl

theorem trackerIn_mTs (hr : i.rstN = true) :
    (trackerIn s i).mTs = decide (s.master.state = .addrTransfer) := by
  cases hst : s.master.state <;> simp [trackerIn, CacheMaster.out, CacheMaster.addrOwned, hr, hst]

theorem trackerIn_mDbbOe (hu : unstarted s.master.state = true) : (trackerIn s i).mDbbOe = false := by
  cases hst : s.master.state <;> simp [unstarted, hst] at hu <;>
    simp [trackerIn, CacheMaster.out, hst]

/-- The two registers of the master that tell when DBB is released. -/
theorem release_step (hr : i.rstN = true) (hb : i.busCe = true)
    (hrel : s.master.finalReleaseStarted = true → unstarted s.master.state = false ∧
      (s.master.state.reads = true → s.master.beat = s.master.lastBeat))
    (hbeat : unstarted s.master.state = true → s.master.beat = 0) :
    ((step s i).master.finalReleaseStarted = true → unstarted (step s i).master.state = false ∧
      ((step s i).master.state.reads = true →
        (step s i).master.beat = (step s i).master.lastBeat)) ∧
    (unstarted (step s i).master.state = true → (step s i).master.beat = 0) := by
  have hlast : ∀ i, (CacheMaster.taken s.master i).lastBeat = s.master.lastBeat ∧
      (CacheMaster.taken s.master i).finalReleaseStarted = s.master.finalReleaseStarted := by
    intro i
    unfold CacheMaster.taken
    split_ifs <;> exact ⟨rfl, rfl⟩
  have hstate := CacheMaster.taken_state s.master (masterIn s i)
  have htb := CacheMaster.taken_beat s.master (masterIn s i)
  obtain ⟨hl, hf⟩ := hlast (masterIn s i)
  rw [step_master, CacheMaster.step_bus (i := masterIn s i) hr hb]
  unfold CacheMaster.edge
  generalize CacheMaster.taken s.master (masterIn s i) = b at hstate htb hl hf
  cases hst : s.master.state with
  | idle =>
    dsimp only
    split_ifs <;> simp_all [unstarted, Phase.reads, CacheMaster.loadTenure]
  | finish =>
    simp [unstarted, Phase.reads]
  | readConfirm =>
    dsimp only
    have hc : ∀ x, (CacheMaster.confirmBeat s.master x).finalReleaseStarted =
        x.finalReleaseStarted ∧ (CacheMaster.confirmBeat s.master x).lastBeat = x.lastBeat := by
      intro x
      unfold CacheMaster.confirmBeat
      split_ifs <;> exact ⟨rfl, rfl⟩
    split_ifs <;> simp_all [unstarted, Phase.reads]
  | _ =>
    dsimp only
    (try split_ifs) <;> simp_all [unstarted, Phase.reads]

/-- A shaped tenure was shaped before, or begins with this TS. -/
theorem shaped_before (hr : i.rstN = true) (hb : i.busCe = true)
    (hs : shaped (step s i).master.state = true) :
    s.master.state = .addrTransfer ∨ (shaped s.master.state = true ∧
      (unstarted (step s i).master.state = true → unstarted s.master.state = true)) := by
  rw [step_master, CacheMaster.step_bus (i := masterIn s i) hr hb] at hs ⊢
  simp only [CacheMaster.edge] at hs ⊢
  cases hst : s.master.state with
  | addrTransfer => exact .inl rfl
  | idle =>
    rw [hst] at hs
    dsimp only at hs
    split_ifs at hs <;> simp_all [shaped]
  | finish | retryGap | addrAbort | dataRelease => simp [hst, shaped] at hs
  | addrRequest =>
    rw [hst] at hs
    dsimp only at hs
    split_ifs at hs <;> simp_all [shaped]
  | addrWait | addrRetrySample | dataRequest => exact .inr ⟨rfl, fun _ => rfl⟩
  | _ =>
    refine .inr ⟨rfl, fun hn => ?_⟩
    dsimp only at hn
    (try split_ifs at hn) <;> simp_all [unstarted]

/-- The tracker's shape is that of its master's tenure, and it waits for the first beat. -/
theorem shape_step (hr : i.rstN = true) (hb : i.busCe = true)
    (hshape : shaped s.master.state = true → s.tracker.pair = paired (curAttributes s.master) ∧
      s.tracker.low = s.master.curA.getLsbD 2)
    (hstart : shaped s.master.state = true → unstarted s.master.state = true →
      s.tracker.half = .h0Wait)
    (hs : shaped (step s i).master.state = true) :
    ((step s i).tracker.pair = paired (curAttributes (step s i).master) ∧
      (step s i).tracker.low = (step s i).master.curA.getLsbD 2) ∧
    (unstarted (step s i).master.state = true → (step s i).tracker.half = .h0Wait) := by
  have htr : (trackerIn s i).rstN = true := hr
  have htb : (trackerIn s i).busCe = true := hb
  have hnot : s.master.state ≠ .idle := by
    rcases shaped_before hr hb hs with h | h
    · simp [h]
    · intro hn
      simp [hn, shaped] at h
  have hcur : curAttributes (step s i).master = curAttributes s.master :=
    (CacheMaster.curAttributes_step (i := masterIn s i) hr hb hnot).2
  have ha : (step s i).master.curA = s.master.curA := congrArg Attributes.a hcur
  rw [hcur, ha]
  rcases shaped_before hr hb hs with h | ⟨h, hu⟩
  · have hts : (trackerIn s i).mTs = true := by simp [trackerIn_mTs hr, h]
    have htbst : (trackerIn s i).mTbstN = s.master.curTbstN := rfl
    have htsiz : (trackerIn s i).mTsiz = s.master.curTsiz := rfl
    have ha29 : (trackerIn s i).mA29 = s.master.curA.getLsbD 2 := rfl
    refine ⟨⟨?_, ?_⟩, fun _ => ?_⟩
    · simp only [step, Dbw32.step, htr, htb, hts, htbst, htsiz, paired, curAttributes, Bool.not_true,
        Bool.false_eq_true, if_false, if_true]
      rfl
    · simp [step, Dbw32.step, htr, htb, hts, ha29]
    · simp [step, Dbw32.step, htr, htb, hts]
  · have hts : (trackerIn s i).mTs = false := by
      rw [trackerIn_mTs hr]
      simp only [decide_eq_false_iff_not]
      intro hn
      simp [hn, shaped] at h
    obtain ⟨hp, hl⟩ := hshape h
    refine ⟨⟨?_, ?_⟩, fun hn => ?_⟩
    · simpa [step, Dbw32.step, htr, htb, hts] using hp
    · simpa [step, Dbw32.step, htr, htb, hts] using hl
    · have ho := trackerIn_mDbbOe (i := i) (hu hn)
      simp [step, Dbw32.step, htr, htb, hts, Dbw32.nextHalf, hstart h (hu hn), Dbw32.capture, ho]

/-- A data tenure of a read goes on, or begins. -/
theorem reads_before (hr : i.rstN = true) (hb : i.busCe = true)
    (hreads : (step s i).master.state.reads = true) :
    s.master.state = .dataRequest ∨ s.master.state.reads = true := by
  rw [step_master, CacheMaster.step_bus (i := masterIn s i) hr hb] at hreads
  simp only [CacheMaster.edge] at hreads
  cases hst : s.master.state with
  | dataRequest => exact .inl rfl
  | readWait | readConfirm | readReplace => exact .inr rfl
  | _ =>
    rw [hst] at hreads
    dsimp only at hreads
    (try split_ifs at hreads) <;> simp_all [Phase.reads]

theorem half_step (hr : i.rstN = true) (hb : i.busCe = true)
    (hu : unstarted s.master.state = true) (hhalf : s.tracker.half = .h0Wait) :
    (step s i).tracker.half = .h0Wait := by
  have htr : (trackerIn s i).rstN = true := hr
  have htb : (trackerIn s i).busCe = true := hb
  simp [step, Dbw32.step, htr, htb, Dbw32.nextHalf, hhalf, Dbw32.capture, trackerIn_mDbbOe hu]

/-- A read's reader between two edges of its data tenure. -/
theorem reading_of_inv (hinv : CacheMaster.Inv s.master l)
    (hreads : s.master.state.reads = true) : ∃ phase : Reader.Phase (BitVec 64),
      phase.live = true ∧ CacheMaster.Reading phase s.master l ∧
        (s.master.state = .readConfirm → ∃ w, phase = .held w) ∧
        (s.master.state = .readReplace → phase = .replacing) := by
  have hidle : s.master.state ≠ .idle := by
    intro hn
    simp [hn, Phase.reads] at hreads
  have hpush : s.master.actPush = false := by
    by_contra hp
    unfold CacheMaster.Inv at hinv
    rw [if_neg hidle, if_pos (by simpa using hp), hreads] at hinv
    exact absurd hinv.2 (by decide)
  have hact := CacheMaster.active_of_inv hinv hidle hpush
  cases hst : s.master.state <;> simp [hst, Phase.reads] at hreads <;> rw [hst] at hact
  · exact ⟨_, rfl, hact, nofun, nofun⟩
  · exact ⟨_, rfl, hact, fun _ => ⟨_, rfl⟩, nofun⟩
  · exact ⟨_, rfl, hact, nofun, fun _ => rfl⟩

/-- The tracker's master owns the data bus while its read goes on. -/
theorem owned_of_reads (hr : i.rstN = true) (hb : i.busCe = true)
    (hrel : s.master.finalReleaseStarted = true → s.master.beat = s.master.lastBeat)
    (hreads : s.master.state.reads = true) (hnext : (step s i).master.state.reads = true)
    (hconf : s.master.state = .readConfirm → s.tracker.half = .h1Conf)
    (hrepl : s.master.state = .readReplace → s.tracker.half = .h1Repl) :
    (trackerIn s i).mDbbOe = true ∨ s.tracker.half = .h1Repl ∨
      (s.tracker.half = .h1Conf ∧ (trackerIn s i).drtryN = false) := by
  cases hst : s.master.state with
  | readWait =>
    left
    simp [trackerIn, CacheMaster.out, hst, show i.rstN = true from hr]
  | readReplace => exact .inr (.inl (hrepl hst))
  | readConfirm =>
    have hhalf := hconf hst
    cases hf : s.master.finalReleaseStarted with
    | false =>
      left
      simp [trackerIn, CacheMaster.out, hst, hf, show i.rstN = true from hr]
    | true =>
      refine .inr (.inr ⟨hhalf, ?_⟩)
      -- the last beat has been taken, so this edge ends the tenure unless it cancels
      by_contra hd
      have hd' : i.pins.drtryN = true := by simpa [trackerIn] using hd
      have hm : (masterIn s i).pins.drtryN = true := by
        simp [masterIn, Dbw32.mDrtryN, Dbw32.pairOn, hhalf, trackerIn, hd']
      rw [step_master, CacheMaster.step_bus (i := masterIn s i) hr hb] at hnext
      simp only [CacheMaster.edge, hst, hf, hm, hrel hf] at hnext
      split_ifs at hnext <;> simp_all [Phase.reads]
  | _ => simp [hst, Phase.reads] at hreads

/-- An edge of a read's data tenure. -/
theorem reads_step (hr : i.rstN = true) (hb : i.busCe = true)
    (hinv : CacheMaster.Inv s.master l)
    (hnext : (step s i).master.state.reads = true → (Reader.run (beats l.req)
      (l.edges ++ [Dbw32.mAnswer s.tracker (trackerIn s i)])).phase.live = true)
    (h : Tracks s l k) (hreads : s.master.state.reads = true) :
    Judged (paired (attributes l.req l.part))
      (l.edges ++ [Dbw32.mAnswer s.tracker (trackerIn s i)])
      (k.edges ++ [Dbw32.answer (trackerIn s i)]) ∧
    ((step s i).master.state.reads = true → paired (attributes l.req l.part) = true →
      Reader.Follows (2 * beats l.req) (k.edges ++ [Dbw32.answer (trackerIn s i)]) ∧
      Aligned joinWords ⟨(step s i).tracker.half, (step s i).tracker.high⟩
        (Reader.run (2 * beats l.req) (k.edges ++ [Dbw32.answer (trackerIn s i)]))
        (Reader.run (beats l.req)
          (l.edges ++ [Dbw32.mAnswer s.tracker (trackerIn s i)]))) := by
  obtain ⟨phase, hlive, hread, hconf, hrepl⟩ := reading_of_inv hinv hreads
  have hshaped : shaped s.master.state = true := by
    cases hst : s.master.state <;> simp [hst, Phase.reads] at hreads <;> rfl
  have hpair := (h.shape hshaped).1
  rw [hread.pins] at hpair
  cases hp : paired (attributes l.req l.part) with
  | false =>
    rw [hp] at hpair
    refine ⟨?_, fun _ hn => nomatch hn⟩
    have hcur := h.cur
    rw [Judged, hp, if_neg Bool.false_ne_true] at hcur
    rw [Judged, if_neg Bool.false_ne_true, hcur, Dbw32.mAnswer_single rfl hpair,
      List.map_append, List.map_singleton]
  | true =>
    rw [hp] at hpair
    obtain ⟨hfollows, hal⟩ := h.aligned hreads hp
    have hqlive : (Reader.run (beats l.req) l.edges).phase.live = true := by
      rw [hread.phase]
      exact hlive
    obtain ⟨hrlive, hheld, hreplacing⟩ := hal.phases
    rw [hread.phase] at hheld hreplacing
    have hstep := @Aligned.take _ _ _ _ _ _ (beats l.req) hal (Dbw32.answer (trackerIn s i))
    rw [← Dbw32.mAnswer_pair rfl hpair, ← Reader.run_concat, ← Reader.run_concat] at hstep
    have hl := hread.follows.concat hqlive (Dbw32.mAnswer s.tracker (trackerIn s i))
    have hk := hfollows.concat hrlive (Dbw32.answer (trackerIn s i))
    refine ⟨?_, fun hgo _ => ⟨hk, ?_⟩⟩
    · rw [Judged, if_pos rfl, ← hl.kept, ← hk.kept]
      exact hstep.1
    · have hts : (trackerIn s i).mTs = false := by
        rw [trackerIn_mTs hr]
        simp only [decide_eq_false_iff_not]
        intro hn
        simp [hn, Phase.reads] at hreads
      have hown := owned_of_reads hr hb (fun hf => (h.release hf).2 hreads) hreads hgo
        (fun hst => (hconf hst).elim hheld) (fun hst => hreplacing (hrepl hst))
      have htake : (⟨(step s i).tracker.half, (step s i).tracker.high⟩ : Adapter (BitVec 32)) =
          Adapter.take ⟨s.tracker.half, s.tracker.high⟩ (Dbw32.answer (trackerIn s i)) :=
        Dbw32.step_pair hr hb rfl hpair hts hown
      rw [htake]
      exact hstep.2.2 (hnext hgo)

/-- **An edge keeps the tracker in step with its master.** -/
theorem tracks_step (hinv : CacheMaster.Inv s.master l)
    (hnext : CacheMaster.Inv (step s i).master (l.update s.master (masterIn s i)))
    (h : Tracks s l k) :
    Tracks (step s i) (l.update s.master (masterIn s i)) (k.update s i) := by
  cases hr : i.rstN with
  | false =>
    have hm : (step s i).master.state = .idle ∧ (step s i).master.beat = 0 ∧
        (step s i).master.finalReleaseStarted = false := by
      simp [step_master, CacheMaster.step, hr, CacheMaster.reset]
    have hl : l.update s.master (masterIn s i) = .start := by simp [Log.update, hr]
    have hk : k.update s i = ⟨[], []⟩ := by simp [HalfLog.update, hr]
    rw [hl, hk]
    refine ⟨?_, ?_, fun _ => hm.2.1, ?_, rfl, judged_nil _, by rintro ⟨⟩, ?_⟩ <;> rw [hm.1]
    · rintro ⟨⟩
    · rintro ⟨⟩
    · rw [hm.2.2]
      rintro ⟨⟩
    · rintro ⟨⟩
  | true =>
    cases hb : i.busCe with
    | false =>
      have hs : step s i =
          ⟨s.tracker, { s.master with slow := s.master.slow || !i.busCe }⟩ := by
        simp [step, CacheMaster.step, Dbw32.step, trackerIn, hr, hb]
      have hl : l.update s.master (masterIn s i) = l := by simp [Log.update, hr, hb]
      have hk : k.update s i = k := by simp [HalfLog.update, hr, hb]
      rw [hs, hl, hk]
      exact ⟨h.shape, h.start, h.beat, h.release, h.length, h.cur, h.fst, h.aligned⟩
    | true =>
      have hshape := shape_step hr hb h.shape h.start
      have hrel := release_step hr hb h.release h.beat
      -- what is left is about the two logs
      suffices hlogs : ∀ l' k', l' = l.update s.master (masterIn s i) → k' = k.update s i →
          k'.edges.length = l'.edges.length ∧
          Judged (paired (attributes l'.req l'.part)) l'.edges k'.edges ∧
          (l'.part = true → Judged (paired (attributes l'.req false)) l'.first k'.first) ∧
          ((step s i).master.state.reads = true → paired (attributes l'.req l'.part) = true →
            Reader.Follows (2 * beats l'.req) k'.edges ∧
            Aligned joinWords ⟨(step s i).tracker.half, (step s i).tracker.high⟩
              (Reader.run (2 * beats l'.req) k'.edges) (Reader.run (beats l'.req) l'.edges)) by
        obtain ⟨hlen, hcur, hfst, hal⟩ := hlogs _ _ rfl rfl
        exact ⟨fun hs => (hshape hs).1, fun hs hu => (hshape hs).2 hu, hrel.2, hrel.1, hlen, hcur,
          hfst, hal⟩
      rintro l' k' hl hk
      cases ha : CacheMaster.accepts s.master (masterIn s i) with
      | true =>
        have hidle := (CacheMaster.accepts_spec ha).1
        have hl' : l' = ⟨true, masterIn s i, false, [], [], [], [], false, false⟩ := by
          simp [hl, Log.update, hr, hb, ha]
        have hk' : k' = ⟨[], []⟩ := by simp [hk, HalfLog.update, hr, hb, ha]
        rw [hl', hk']
        refine ⟨rfl, judged_nil _, by rintro ⟨⟩, fun hreads => ?_⟩
        rcases reads_before hr hb hreads with h | h <;> simp [hidle, Phase.reads] at h
      | false =>
        rw [CacheMaster.update_bus (i := masterIn s i) hr hb ha] at hl hnext
        cases hc : CacheMaster.continues s.master with
        | true =>
          have hk' : k' = ⟨k.edges, []⟩ := by simp [hk, HalfLog.update, hr, hb, ha, hc]
          have hfin : s.master.state = .finish ∧ s.master.actPush = false ∧
              s.master.rqPart = false := by
            simp only [CacheMaster.continues, Bool.and_eq_true, decide_eq_true_eq,
              Bool.not_eq_true'] at hc
            tauto
          have hidle : s.master.state ≠ .idle := by simp [hfin.1]
          have hpart : l.part = false :=
            (CacheMaster.open_of_inv hinv hidle hfin.2.1).1.part.symm.trans hfin.2.2
          have hcur := h.cur
          rw [hpart] at hcur
          rw [hl, hk']
          simp only [hc, if_true]
          refine ⟨rfl, judged_nil _, fun _ => hcur, fun hreads => ?_⟩
          rcases reads_before hr hb hreads with h | h <;> simp [hfin.1, Phase.reads] at h
        | false =>
          cases hreads : s.master.state.reads with
          | false =>
            have hk' : k' = k := by simp [hk, HalfLog.update, hr, hb, ha, hc, hreads]
            rw [hl, hk']
            simp only [hc, hreads, Bool.or_false, Bool.false_eq_true, if_false]
            refine ⟨h.length, h.cur, h.fst, fun hgo hp => ?_⟩
            have hst : s.master.state = .dataRequest := by
              rcases reads_before hr hb hgo with h | h
              · exact h
              · simp [hreads] at h
            have hpush : s.master.actPush = false := by
              by_contra hpu
              rw [step_master, CacheMaster.step_bus (i := masterIn s i) hr hb] at hgo
              have hw : CacheMaster.curWrite s.master = true := by
                simp [CacheMaster.curWrite, show s.master.actPush = true by simpa using hpu]
              simp only [CacheMaster.edge, hst, hw, if_true] at hgo
              split_ifs at hgo <;> simp [Phase.reads, hst] at hgo
            have hact := CacheMaster.active_of_inv hinv (by simp [hst]) hpush
            rw [hst] at hact
            have hedges : k.edges = [] := by
              rw [← List.length_eq_zero_iff, h.length, hact.1.edges, List.length_nil]
            have hbeats : 0 < 2 * beats l.req := by
              unfold beats
              split_ifs <;> decide
            have hu : unstarted s.master.state = true := by simp [hst, unstarted]
            have hhalf := half_step hr hb hu (h.start (by simp [hst, shaped]) hu)
            rw [hedges, hact.1.edges]
            exact ⟨Reader.follows_nil hbeats, aligned_start hhalf⟩
          | true =>
            have hk' : k' = { k with edges := k.edges ++ [Dbw32.answer (trackerIn s i)] } := by
              simp [hk, HalfLog.update, hr, hb, ha, hc, hreads]
            have hnext' : (step s i).master.state.reads = true → (Reader.run (beats l.req)
                (l.edges ++ [Dbw32.mAnswer s.tracker (trackerIn s i)])).phase.live = true := by
              intro hgo
              obtain ⟨x, hx, hread, -⟩ := reading_of_inv hnext hgo
              have hphase := hread.phase
              simp only [hc, hreads, Bool.false_eq_true, if_false, if_true] at hphase
              exact (congrArg Reader.Phase.live hphase).trans hx
            have hmain := reads_step hr hb hinv hnext' h hreads
            rw [hl, hk']
            simp only [hc, hreads, Bool.or_false, Bool.false_eq_true, if_false, if_true]
            exact ⟨by simp [h.length], hmain.1, h.fst, hmain.2⟩

end Step

end Narrow
end Bus
end SloPPC603
