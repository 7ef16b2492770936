import SloPPC603.Clocked.Journal
import SloPPC603.Special.Settled

/-!
# One acknowledgement for each interrupt

* `Window`, `window_run` — the edges from a boundary's acceptance up to its commit.
* `Delivered`, `Traces`, `Preempts` — what an interrupt or a preemption delivers.
* `acknowledged_once` — every one of them acknowledges one source, delivers it and leaves the
  others waiting, unless an SMI stands behind the watchdog's reset.
-/

namespace SloPPC603
namespace Special

open Exceptions (Event msrEe msrMe)

variable {cfg : Cfg}

/-! ## Runs -/

section Runs

open Clocked

variable {s : State} {i : Input} {r : Run (machine cfg)} {m n : ℕ}

/-- The edges from a boundary's acceptance up to its commit. -/
structure Window (r : Run (machine cfg)) (m n : ℕ) : Prop where
  lt : m < n
  accepted : accepts cfg (r.state m) (r.input m) = true
  quiet : ∀ k, m < k → k < n → accepts cfg (r.state k) (r.input k) = false ∧
    commits cfg (r.state k) (r.input k) = false ∧
    ∀ src, ack cfg (r.state k) (r.input k) src = false
  msr : (r.state n).exc.msr = (r.state m).exc.msr
  selected : (r.state n).selected = select cfg (offered (r.state m) (r.input m)) ∨
    (r.state n).lane.phase = .interruptCommit ∧
      (r.state n).selected = (select cfg (offered (r.state m) (r.input m))).promote ∧
      ∃ k, m < k ∧ k < n ∧ (r.state k).external = true
  waits : ∀ t, (offered (r.state m) (r.input m)).pending cfg t = true →
    ack cfg (r.state m) (r.input m) t = false →
    (∀ k, m ≤ k → k < n → (r.input k).level t = true) → (r.state n).waiting t = true

/-- The environment keeps its rule on the first edges. -/
theorem sound_run (hext : cfg.enableExternalInterrupts = true) (hcut : r.Obeys (Uncut cfg) n) :
    Sound cfg (r.state n) :=
  Run.invariant (I := Sound cfg)
    (fun s (h : ∃ hid0, s = reset cfg hid0) => h.choose_spec ▸ sound_reset h.choose)
    (fun _ _ hs hc => sound_step hext hs hc) hcut

theorem window_start (hpin : cfg.enablePinInterrupts = true)
    (hext : cfg.enableExternalInterrupts = true) (hs : Sound cfg (r.state n))
    (h : accepts cfg (r.state n) (r.input n) = true) : Window r n (n + 1) := by
  have hidle := accepts_idle h
  have hhold : (r.state n).lane.phase ≠ .hold := by simp [hidle]
  refine ⟨Nat.lt_succ_self n, h, fun k h1 h2 => absurd h1 (by omega), ?_, Or.inl ?_, ?_⟩
  · exact msr_step (presented_none hhold (by simp [hidle])) hhold
  · change selectedNext cfg (r.state n) (r.input n) = _
    simp [selectedNext, h]
  · intro t hpend hack hlevel
    exact waiting_step hpin hext hs.store (waiting_of_pending hs (Or.inl hidle) hpend) hack
      (hlevel n le_rfl (Nat.lt_succ_self n))

/-- A drain that goes on commits and acknowledges nothing, and keeps MSR. -/
theorem draining_quiet (hdrain : s.lane.phase.draining = true)
    (hacc : accepts cfg s i = false) (hrun : s.lane.next i.lane (commit cfg s i) =
      s.lane.run i.lane (commit cfg s i))
    (h : (step cfg s i).lane.phase.draining = true) :
    commits cfg s i = false ∧ (∀ src, ack cfg s i src = false) ∧
      (step cfg s i).exc.msr = s.exc.msr := by
  have hnext : (step cfg s i).lane = s.lane.run i.lane (commit cfg s i) := hrun
  simp only [Phase.draining, Bool.or_eq_true, decide_eq_true_eq] at hdrain
  rcases hdrain with hp | hp
  · have hhold : s.lane.phase ≠ .hold := by simp [hp]
    have hcommit : s.lane.phase ≠ .interruptCommit := by simp [hp]
    exact ⟨by simp [commits, hp], ack_quiet hacc hhold hcommit,
      msr_step (presented_none hhold hcommit) hhold⟩
  · rw [hnext] at h
    simp only [Phase.draining, Bool.or_eq_true, decide_eq_true_eq] at h
    rcases h with h | h
    · rw [(run_contextDrain h).1] at hp
      cases hp
    · rcases run_interruptCommit h with ⟨hq, -, -⟩ | ⟨-, hno, hready⟩
      · rw [hq] at hp
        cases hp
      · have hready : eventReady cfg s i = false := hready
        have hno : (s.selected.mcp && !s.exc.msr.getLsbD msrMe) = false := hno
        have hfires : fires cfg s i = false := by simp [fires, hready]
        exact ⟨by simp [commits, hfires, hno], fun src => by rw [ack_commit hp, hfires]; rfl,
          msr_waits hready⟩

/-- Where the selection goes through a drain. -/
theorem draining_selected (hcancel : i.lane.cancel = false) (hacc : accepts cfg s i = false)
    (hfire : s.lane.dispatchFire i.lane = false) :
    (step cfg s i).selected = s.selected ∨
      (s.lane.phase = .contextDrain ∧ (step cfg s i).lane.phase = .interruptCommit ∧
        (step cfg s i).selected = s.selected.promote ∧ s.external = true) := by
  have hsel : (step cfg s i).selected = selectedNext cfg s i := rfl
  rw [hsel, selectedNext, hacc, if_neg Bool.false_ne_true]
  split_ifs with hpromote
  · simp only [Bool.and_eq_true, Bool.not_eq_true', decide_eq_true_eq] at hpromote
    obtain ⟨⟨⟨⟨⟨-, -⟩, hp⟩, hq⟩, hint⟩, hext⟩ := hpromote
    refine Or.inr ⟨hp, ?_, rfl, hext⟩
    have hfire : Lane.dispatchFire s.lane i.lane = false := hfire
    change (s.lane.next i.lane (commit cfg s i)).phase = _
    simp [Lane.next, Lane.run, commit, hacc, hfire, hcancel, hp, hq, hint]
  · exact Or.inl rfl

/-- **The window goes on.** -/
theorem Window.succ (hpin : cfg.enablePinInterrupts = true)
    (hext : cfg.enableExternalInterrupts = true) (hs : Sound cfg (r.state n)) (h : Window r m n)
    (hacc : accepts cfg (r.state n) (r.input n) = false)
    (hfire : (r.state n).lane.dispatchFire (r.input n).lane = false)
    (hdrain : (r.state (n + 1)).lane.phase.draining = true) : Window r m (n + 1) := by
  have hlane : (r.state (n + 1)).lane =
      (r.state n).lane.next (r.input n).lane (commit cfg (r.state n) (r.input n)) := rfl
  obtain ⟨hbefore, hcancel, hrun⟩ :=
    next_draining (c := commit cfg (r.state n) (r.input n)) hacc hfire (hlane ▸ hdrain)
  obtain ⟨hcommits, hack, hmsr⟩ := draining_quiet hbefore hacc hrun hdrain
  refine ⟨Nat.lt_succ_of_lt h.lt, h.accepted, fun k h1 h2 => ?_, ?_, ?_, fun t hpend ht hlevel => ?_⟩
  · rcases Nat.lt_succ_iff_lt_or_eq.1 h2 with hk | rfl
    · exact h.quiet k h1 hk
    · exact ⟨hacc, hcommits, hack⟩
  · exact hmsr.trans h.msr
  · have hnext : (r.state (n + 1)).selected = (step cfg (r.state n) (r.input n)).selected := rfl
    rw [hnext]
    rcases draining_selected hcancel hacc hfire with hsame | ⟨hp, hcommit, hsel, hext⟩
    · rw [hsame]
      rcases h.selected with hsel | ⟨hp, hsel, k, h1, h2, hk⟩
      · exact Or.inl hsel
      · refine Or.inr ⟨?_, hsel, k, h1, Nat.lt_succ_of_lt h2, hk⟩
        simp only [Phase.draining, Bool.or_eq_true, decide_eq_true_eq] at hdrain
        refine hdrain.resolve_left fun hd => ?_
        rw [hlane, hrun] at hd
        rw [(run_contextDrain hd).1] at hp
        cases hp
    · rcases h.selected with hold | ⟨hp', -, -⟩
      · exact Or.inr ⟨hcommit, by rw [hsel, hold], n, h.lt, Nat.lt_succ_self n, hext⟩
      · rw [hp] at hp'
        cases hp'
  · exact waiting_step hpin hext hs.store
      (h.waits t hpend ht fun k h1 h2 => hlevel k h1 (Nat.lt_succ_of_lt h2)) (hack t)
      (hlevel n (Nat.le_of_lt h.lt) (Nat.lt_succ_self n))

/-- **A drain that an interrupt entered has its window.** -/
theorem window_run (hpin : cfg.enablePinInterrupts = true)
    (hext : cfg.enableExternalInterrupts = true) (hcut : r.Obeys (Uncut cfg) n)
    (hdrain : (r.state n).lane.phase.draining = true) (hint : (r.state n).interrupt = true) :
    ∃ m, Window r m n := by
  induction n with
  | zero =>
    obtain ⟨hid0, h⟩ := r.initial
    have hstart : (r.state 0).lane.phase = .idle := by rw [Run.state_zero, h]; rfl
    rw [hstart] at hdrain
    cases hdrain
  | succ n ih =>
    have hs := sound_run hext (hcut.mono (Nat.le_succ n))
    by_cases hacc : accepts cfg (r.state n) (r.input n) = true
    · exact ⟨n, window_start hpin hext hs hacc⟩
    · have hacc : accepts cfg (r.state n) (r.input n) = false := by simpa using hacc
      have hfire : (r.state n).lane.dispatchFire (r.input n).lane = false := by
        by_contra hfire
        have hno : interruptNext cfg (r.state n) (r.input n) = true := hint
        rw [interruptNext, hacc, if_neg Bool.false_ne_true, if_pos (by simpa using hfire)] at hno
        cases hno
      have hbefore := (next_draining (c := commit cfg (r.state n) (r.input n)) hacc hfire hdrain).1
      have hkeep : (r.state (n + 1)).interrupt = (r.state n).interrupt :=
        interrupt_keeps hacc hfire hbefore
      obtain ⟨m, hwindow⟩ := ih (hcut.mono (Nat.le_succ n)) hbefore (hkeep ▸ hint)
      exact ⟨m, hwindow.succ hpin hext hs hacc hfire hdrain⟩

/-! ### What an interrupt delivers -/

/-- Every other source that was pending at edge `m` is still so after edge `n`; a level, while
its pin holds it. -/
def StillWaiting (r : Run (machine cfg)) (m n : ℕ) (acknowledged : Source → Prop) : Prop :=
  ∀ t, (offered (r.state m) (r.input m)).pending cfg t = true → ¬ acknowledged t →
    (∀ k, m ≤ k → k ≤ n → (r.input k).level t = true) → (r.state (n + 1)).waiting t = true

/-- A decrementer or watchdog reservation that gave way to the external interrupt. -/
def Promoted (r : Run (machine cfg)) (m n : ℕ) : Prop :=
  (∃ t, (t = .decrementer ∨ t = .watchdog) ∧ (offered (r.state m) (r.input m)).Highest cfg t) ∧
    ∃ k, m < k ∧ k < n ∧ (r.state k).external = true

/-- The interrupt accepted at edge `m` and committed at edge `n` is of the source `src`. -/
structure Delivered (r : Run (machine cfg)) (m n : ℕ) (src : Source) : Prop where
  acknowledged : r.emitted (acks cfg) m (n + 1) = [src]
  event : (fires cfg (r.state n) (r.input n) = true ∧
      presented cfg (r.state n) (r.input n) = some src.kind) ∨
    (src.checks = true ∧ (r.state n).exc.msr.getLsbD msrMe = false ∧
      (r.state (n + 1)).lane.phase = .checkstop)
  ranked : (offered (r.state m) (r.input m)).Highest cfg src ∨ (src = .external ∧ Promoted r m n)
  waiting : StillWaiting r m n (· = src)

/-- The interrupt delivers the trace and acknowledges nothing. -/
structure Traces (r : Run (machine cfg)) (m n : ℕ) : Prop where
  pending : (offered (r.state m) (r.input m)).Traced cfg
  acknowledged : r.emitted (acks cfg) m (n + 1) = []
  event : fires cfg (r.state n) (r.input n) = true ∧
    presented cfg (r.state n) (r.input n) = some .trace
  waiting : StillWaiting r m n (fun _ => False)

/-- The preemption of edge `n` is of the source `src`. -/
structure Preempts (r : Run (machine cfg)) (n : ℕ) (src : Source) : Prop where
  acknowledged : acks cfg (r.state n) (r.input n) = [src]
  event : fires cfg (r.state n) (r.input n) = true ∧
    presented cfg (r.state n) (r.input n) = some src.kind
  ranked : (offered (r.state n) (r.input n)).Highest cfg src
  waiting : StillWaiting r n n (· = src)

/-- Something is pending at every boundary that is accepted. -/
theorem any_of_accepts (h : accepts cfg s i = true) : (offered s i).Any cfg := by
  have hq : interruptQualified cfg s i = true := by
    simp only [accepts, Bool.and_eq_true] at h
    exact h.1.1.2.1
  simp only [interruptQualified, pinInterrupt, Bool.and_eq_true, Bool.or_eq_true] at hq
  obtain ⟨⟨-, hq⟩, -⟩ := hq
  rcases hq with ((htrace | ⟨-, hpin⟩) | ⟨hreset, -⟩) | ⟨⟨hsrc, hee⟩, -⟩
  · exact Or.inl (by simpa [traced, offered] using htrace)
  · rcases hpin with ((((h | h) | h) | h) | h) | h
    · exact Or.inr ⟨.machineCheckPin, h⟩
    · exact Or.inr ⟨.tea, h⟩
    · exact Or.inr ⟨.addressParity, h⟩
    · exact Or.inr ⟨.dataParity, h⟩
    · exact Or.inr ⟨.softReset, h⟩
    · exact Or.inr ⟨.smi, by simpa [Offered.pending, offered] using h⟩
  · exact Or.inr ⟨.watchdogReset, hreset⟩
  · rcases hsrc with (h | h) | h
    · exact Or.inr ⟨.external, by simp [Offered.pending, offered, h, hee]⟩
    · exact Or.inr ⟨.decrementer, by simp [Offered.pending, offered, h.2, hee]⟩
    · exact Or.inr ⟨.watchdog, by simp [Offered.pending, offered, h, hee]⟩

/-- The acknowledgements of the edges of a window: those of its first and of its commit. -/
theorem Window.emitted (h : Window r m n) : r.emitted (acks cfg) m (n + 1) =
    acks cfg (r.state m) (r.input m) ++ acks cfg (r.state n) (r.input n) := by
  have hquiet : ∀ k, m + 1 ≤ k → k ≤ n →
      r.emitted (acks cfg) m k = acks cfg (r.state m) (r.input m) := by
    intro k hmk hkn
    induction k, hmk using Nat.le_induction with
    | base => rw [Run.emitted_succ le_rfl, Run.emitted_self, List.nil_append]
    | succ k hmk ih =>
      have hnone : acks cfg (r.state k) (r.input k) = [] :=
        filter_ranked_none (h.quiet k (by omega) (by omega)).2.2
      rw [Run.emitted_succ (by omega), ih (by omega), hnone, List.append_nil]
  rw [Run.emitted_succ (Nat.le_of_lt h.lt), hquiet n h.lt le_rfl]

/-- The selection at the commit: the boundary's own, or what is left for an external interrupt. -/
theorem Window.flags (h : Window r m n) {src : Source}
    (hsel : select cfg (offered (r.state m) (r.input m)) = src.flags)
    (hsrc : (offered (r.state m) (r.input m)).Highest cfg src) :
    (r.state n).selected = src.flags ∨ ((r.state n).selected = Source.external.flags ∧
      (src = .decrementer ∨ src = .watchdog) ∧ Promoted r m n) := by
  rcases h.selected with hown | ⟨-, hown, hk⟩
  · exact Or.inl (hown.trans hsel)
  · rw [hsel] at hown
    cases src with
    | decrementer => exact Or.inr ⟨hown, Or.inl rfl, ⟨_, Or.inl rfl, hsrc⟩, hk⟩
    | watchdog => exact Or.inr ⟨hown, Or.inr rfl, ⟨_, Or.inr rfl, hsrc⟩, hk⟩
    | _ => exact Or.inl hown

/-- What no edge of the window acknowledges still waits after it. -/
theorem Window.still (hpin : cfg.enablePinInterrupts = true)
    (hext : cfg.enableExternalInterrupts = true) (hs : Sound cfg (r.state n)) (h : Window r m n)
    {p : Source → Prop} (hfirst : ∀ t, ¬ p t → ack cfg (r.state m) (r.input m) t = false)
    (hlast : ∀ t, ¬ p t → ack cfg (r.state n) (r.input n) t = false) : StillWaiting r m n p :=
  fun t hpend ht hlevel => waiting_step hpin hext hs.store
    (h.waits t hpend (hfirst t ht) fun k h1 h2 => hlevel k h1 (Nat.le_of_lt h2)) (hlast t ht)
    (hlevel n (Nat.le_of_lt h.lt) le_rfl)

/-- The event of a commit that the exception state takes. -/
theorem presented_fires (hext : cfg.enableExternalInterrupts = true)
    (hphase : s.lane.phase = .interruptCommit) (h : fires cfg s i = true) :
    presented cfg s i = some s.selected.kind := by
  simp only [fires, Bool.and_eq_true] at h
  rw [presented_commit hext hphase] at h ⊢
  split_ifs with hno
  · rw [if_pos hno] at h
    exact absurd h.1 (by decide)
  · rfl

/-- A machine check with MSR[ME] clear stops the lane. -/
theorem next_checkstop (hphase : s.lane.phase = .interruptCommit)
    (hcancel : i.lane.cancel = false) (h : (s.selected.mcp && !s.exc.msr.getLsbD msrMe) = true) :
    (step cfg s i).lane.phase = .checkstop := by
  have hacc : accepts cfg s i = false := accepts_eq_false (by simp [hphase])
  change (s.lane.next i.lane (commit cfg s i)).phase = _
  simp only [Bool.and_eq_true, Bool.not_eq_true'] at h
  simp [Lane.next, Lane.run, Lane.dispatchFire, commit, hacc, hphase, hcancel, h]

theorem commits_phase (h : commits cfg s i = true) : s.lane.phase = .interruptCommit := by
  simp only [commits, Bool.and_eq_true, decide_eq_true_eq] at h
  exact h.1

theorem commits_ends (h : commits cfg s i = true) : fires cfg s i = true ∨
    (s.selected.mcp = true ∧ s.exc.msr.getLsbD msrMe = false) := by
  simp only [commits, Bool.and_eq_true, Bool.or_eq_true, Bool.not_eq_true'] at h
  exact h.2

section Commits

variable (hpin : cfg.enablePinInterrupts = true) (htimers : cfg.enableTimers = true)
  (hext : cfg.enableExternalInterrupts = true) (hs : Sound cfg (r.state n)) (h : Window r m n)
  (hcommit : commits cfg (r.state n) (r.input n) = true)

include hpin hext hs h hcommit

/-- The trace's interrupt. -/
theorem Window.traces (htraced : (offered (r.state m) (r.input m)).Traced cfg) :
    Traces r m n := by
  have hphase := commits_phase hcommit
  obtain ⟨hsel, hack⟩ := boundary_trace hpin htraced
  have hfirst : ∀ t, ack cfg (r.state m) (r.input m) t = false := fun t => by
    rw [ack_accepts h.accepted, hack]
  have hown : (r.state n).selected = { trace := true } := by
    rcases h.selected with hown | ⟨-, hown, -⟩
    · rw [hown, hsel]
    · rw [hown, hsel]
      rfl
  have hfires := (commits_ends hcommit).resolve_right (by simp [hown])
  have hlast : ∀ t, ack cfg (r.state n) (r.input n) t = false := fun t => by
    rw [ack_commit hphase, hown]
    cases t <;> simp [Selected.taken]
  refine ⟨htraced, ?_, ⟨hfires, ?_⟩, h.still hpin hext hs (fun t _ => hfirst t) fun t _ => hlast t⟩
  · rw [h.emitted, acks, acks, filter_ranked_none hfirst, filter_ranked_none hlast]
    rfl
  · rw [presented_fires hext hphase hfires, hown]
    rfl

/-- The interrupt of the source that its boundary selected. -/
theorem Window.delivers_own {src : Source} (hcancel : (r.input n).lane.cancel = false)
    (hack : ∀ t, (offered (r.state m) (r.input m)).ack cfg t = (src.immediate && t = src))
    (hown : (r.state n).selected = src.flags)
    (hsrc : (offered (r.state m) (r.input m)).Highest cfg src) : Delivered r m n src := by
  have hphase := commits_phase hcommit
  have hends := commits_ends hcommit
  rw [hown, flags_mcp] at hends
  have hfirst : ∀ t, ack cfg (r.state m) (r.input m) t = (src.immediate && t = src) :=
    fun t => by rw [ack_accepts h.accepted, hack]
  have hlast : ∀ t, ack cfg (r.state n) (r.input n) t =
      (fires cfg (r.state n) (r.input n) && (!src.immediate && t = src)) := fun t => by
    rw [ack_commit hphase, hown, flags_taken]
  refine ⟨?_, ?_, Or.inl hsrc, h.still hpin hext hs (fun t ht => ?_) fun t ht => ?_⟩
  · rw [h.emitted, acks, acks]
    by_cases him : src.immediate = true
    · rw [filter_ranked src fun t => by rw [hfirst, him, Bool.true_and],
        filter_ranked_none fun t => by rw [hlast, him]; simp]
      rfl
    · -- a source that waits for the commit does not checkstop
      have hno : src.checks = false := by
        revert him
        cases src <;> simp [Source.checks, Source.immediate, Source.rank]
      have hfires := hends.resolve_right (by simp [hno])
      rw [filter_ranked_none fun t => by rw [hfirst]; simp [him],
        filter_ranked src fun t => by rw [hlast, hfires]; simp [him]]
      rfl
  · rcases hends with hfires | ⟨hcheck, hme⟩
    · exact Or.inl ⟨hfires, by rw [presented_fires hext hphase hfires, hown, flags_kind]⟩
    · exact Or.inr ⟨hcheck, hme, next_checkstop hphase hcancel (by simp [hown, flags_mcp, hcheck, hme])⟩
  · rw [hfirst]
    simp [ht]
  · rw [hlast]
    simp [ht]

/-- The interrupt that gave way to the external one. -/
theorem Window.delivers_external {src : Source} (hlow : src = .decrementer ∨ src = .watchdog)
    (hack : ∀ t, (offered (r.state m) (r.input m)).ack cfg t = (src.immediate && t = src))
    (hown : (r.state n).selected = Source.external.flags) (hpromoted : Promoted r m n) :
    Delivered r m n .external := by
  have hphase := commits_phase hcommit
  have hno : src.immediate = false := by rcases hlow with rfl | rfl <;> rfl
  have hfires := (commits_ends hcommit).resolve_right (by simp [hown, Source.flags])
  have hfirst : ∀ t, ack cfg (r.state m) (r.input m) t = false := fun t => by
    rw [ack_accepts h.accepted, hack, hno]
    rfl
  have hlast : ∀ t, ack cfg (r.state n) (r.input n) t = decide (t = .external) := fun t => by
    rw [ack_commit hphase, hown, flags_taken, hfires]
    simp [Source.immediate, Source.rank]
  refine ⟨?_, Or.inl ⟨hfires, ?_⟩, Or.inr ⟨rfl, hpromoted⟩,
    h.still hpin hext hs (fun t _ => hfirst t) fun t ht => ?_⟩
  · rw [h.emitted, acks, acks, filter_ranked_none hfirst, filter_ranked _ hlast]
    rfl
  · rw [presented_fires hext hphase hfires, hown, flags_kind]
  · rw [hlast]
    simp [ht]

include htimers

/-- **One interrupt.**  The commit delivers what the boundary and it acknowledge. -/
theorem Window.delivers (hcut : Uncut cfg (r.state n) (r.input n))
    (hclear : hidden cfg (offered (r.state m) (r.input m)) = false) :
    Traces r m n ∨ ∃ src, Delivered r m n src := by
  have hcancel := hcut (Or.inl (hs.commit (commits_phase hcommit)))
  rcases boundary_cases (any_of_accepts h.accepted) with htraced | ⟨src, hsrc, htrace⟩
  · exact Or.inl (h.traces hpin hext hs hcommit htraced)
  · obtain ⟨hsel, hack⟩ := boundary_source hpin htimers hclear hsrc htrace
    rcases h.flags hsel hsrc with hown | ⟨hown, hlow, hpromoted⟩
    · exact Or.inr ⟨src, h.delivers_own hpin hext hs hcommit hcancel hack hown hsrc⟩
    · exact Or.inr ⟨.external, h.delivers_external hpin hext hs hcommit hlow hack hown hpromoted⟩

end Commits

/-! ### Preemptions -/

/-- **One preemption.** -/
theorem preempts_source (hpin : cfg.enablePinInterrupts = true)
    (hext : cfg.enableExternalInterrupts = true) (hs : Sound cfg (r.state n))
    (h : preempts cfg (r.state n) (r.input n) = true) : ∃ src, Preempts r n src := by
  have hmatch := preempts_hold h
  have hhold := holdMatch_hold hmatch
  have hpre : pinPreempt cfg (r.state n).pin (r.state n).exc.msr
      (own cfg (r.state n) (r.input n)) = true := by
    simp only [preempts, preempted, Bool.and_eq_true] at h
    exact h.2.2
  obtain ⟨e, he⟩ : ∃ e, own cfg (r.state n) (r.input n) = some e := by
    cases hown : own cfg (r.state n) (r.input n) with
    | none => simp [hown, pinPreempt] at hpre
    | some e => exact ⟨e, rfl⟩
  have hsel : preemptSelect cfg (r.state n).pin (r.state n).exc.msr = true ∧ keeps e = false := by
    simpa [he, pinPreempt] using hpre
  obtain ⟨src, hkind, hack, hhigh⟩ :=
    preempt_source (o := offered (r.state n) (r.input n)) hsel.1
  have hacks : ∀ t, ack cfg (r.state n) (r.input n) t = decide (t = src) := fun t => by
    rw [ack_preempts h ?_]
    · exact hack t
    · intro hcheck _
      rcases Held.ownEvent_machineCheck (v := view (r.state n) (r.input n)) hcheck with hown | hown
      · rw [own, hown] at he
        rw [← Option.some.inj he] at hsel
        exact absurd hsel.2 (by decide)
      · rw [own, hown] at he
        cases he
  have hpresented : presented cfg (r.state n) (r.input n) = some src.kind := by
    rw [presented_hold hmatch, presentedEvent, hpre, if_pos rfl]
    exact congrArg some hkind
  have hready : eventReady cfg (r.state n) (r.input n) = true := by
    have hfree : (r.state n).exc.resultValid = false := by
      by_contra hv
      rcases hs.result (by simpa using hv) with hp | hp | hp <;> rw [hp] at hhold <;>
        cases hhold
    simp [eventReady, Exceptions.slotAvailable, hfree]
  refine ⟨src, filter_ranked src hacks, ⟨by simp [fires, hpresented, hready], hpresented⟩, hhigh, ?_⟩
  intro t hpend ht hlevel
  exact waiting_step hpin hext hs.store (waiting_of_pending hs (Or.inr hhold) hpend)
    (by rw [hacks]; simp [ht]) (hlevel n le_rfl le_rfl)

/-! ### The commit comes -/

/-- An interrupt at its commit finds the exception state free. -/
theorem commits_of_phase (hs : Sound cfg s) (hext : cfg.enableExternalInterrupts = true)
    (h : s.lane.phase = .interruptCommit) : commits cfg s i = true := by
  have hfree : s.exc.resultValid = false := by
    by_contra hv
    rcases hs.result (by simpa using hv) with hp | hp | hp <;> rw [hp] at h <;>
      cases h
  by_cases hno : (s.selected.mcp && !s.exc.msr.getLsbD msrMe) = true
  · simp [commits, h, hno]
  · simp [commits, h, fires, presented_commit hext h, hno, eventReady, Exceptions.slotAvailable,
      hfree]

/-- A drain waits for fetch and memory, and then commits. -/
theorem drain_step (hphase : s.lane.phase = .contextDrain) (hint : s.interrupt = true)
    (hcut : Uncut cfg s i) : (step cfg s i).interrupt = true ∧
      (step cfg s i).lane.phase =
        if i.lane.quiescent then .interruptCommit else .contextDrain := by
  have hcancel := hcut (Or.inl hint)
  have hacc : accepts cfg s i = false := accepts_eq_false (by simp [hphase])
  have hfire : s.lane.dispatchFire i.lane = false := by simp [Lane.dispatchFire, hphase]
  refine ⟨(interrupt_keeps hacc hfire (by simp [hphase, Phase.draining])).trans hint, ?_⟩
  change (s.lane.next i.lane (commit cfg s i)).phase = _
  by_cases hq : i.lane.quiescent = true
  · simp [Lane.next, Lane.run, commit, hacc, hfire, hcancel, hphase, hint, hq]
  · simp [Lane.next, Lane.run, commit, hacc, hfire, hcancel, hphase, hq]

/-- **The drain ends in the commit.**  Once fetch and memory have drained, it is the next edge's. -/
theorem commits_of_quiescent (hext : cfg.enableExternalInterrupts = true) {k : ℕ}
    (hcut : r.Obeys (Uncut cfg) (k + 1)) (hmk : m < k)
    (hacc : accepts cfg (r.state m) (r.input m) = true)
    (hquiescent : (r.input k).lane.quiescent = true) :
    ∃ c, m < c ∧ c ≤ k + 1 ∧ commits cfg (r.state c) (r.input c) = true := by
  have hcommit : ∀ j, j ≤ k + 1 → (r.state j).lane.phase = .interruptCommit →
      commits cfg (r.state j) (r.input j) = true := fun j hj hp =>
    commits_of_phase (sound_run hext (hcut.mono hj)) hext hp
  have hdrain : ∀ j, m + 1 ≤ j → j ≤ k → (∃ c, m < c ∧ c ≤ k + 1 ∧
      commits cfg (r.state c) (r.input c) = true) ∨
        ((r.state j).lane.phase = .contextDrain ∧ (r.state j).interrupt = true) := by
    intro j hmj hjk
    induction j, hmj using Nat.le_induction with
    | base =>
      have hint : (r.state (m + 1)).interrupt = interruptNext cfg (r.state m) (r.input m) := rfl
      exact Or.inr ⟨next_accept hacc, by rw [hint, interruptNext, hacc, if_pos rfl]⟩
    | succ j hmj ih =>
      rcases ih (by omega) with hdone | ⟨hp, hint⟩
      · exact Or.inl hdone
      · obtain ⟨hint', hp'⟩ := drain_step hp hint (hcut j (by omega))
        by_cases hq : (r.input j).lane.quiescent = true
        · rw [if_pos hq] at hp'
          exact Or.inl ⟨j + 1, by omega, by omega, hcommit (j + 1) (by omega) hp'⟩
        · rw [if_neg hq] at hp'
          exact Or.inr ⟨hp', hint'⟩
  rcases hdrain k hmk le_rfl with hdone | ⟨hp, hint⟩
  · exact hdone
  · obtain ⟨-, hp'⟩ := drain_step hp hint (hcut k (Nat.lt_succ_self k))
    rw [if_pos hquiescent] at hp'
    exact ⟨k + 1, by omega, le_rfl, hcommit (k + 1) le_rfl hp'⟩

/-! ### Every interrupt -/

/-- No accepted boundary hides an SMI behind the watchdog's reset. -/
def Clear (cfg : Cfg) (s : State) (i : Input) : Prop :=
  accepts cfg s i = true → hidden cfg (offered s i) = false

/-- **One acknowledgement for each interrupt.**  Where no boundary hides an SMI behind the
watchdog's reset, every preemption and every commit acknowledges one source, delivers it, and leaves
the others waiting; and every boundary comes to its commit. -/
theorem acknowledged_once (hpin : cfg.enablePinInterrupts = true)
    (htimers : cfg.enableTimers = true) (hext : cfg.enableExternalInterrupts = true)
    (hcut : r.Obeys (Uncut cfg) (n + 1)) (hclear : r.Obeys (Clear cfg) (n + 1)) :
    (preempts cfg (r.state n) (r.input n) = true → ∃ src, Preempts r n src) ∧
      (commits cfg (r.state n) (r.input n) = true →
        ∃ m < n, accepts cfg (r.state m) (r.input m) = true ∧
          (∀ k, m < k → k < n → accepts cfg (r.state k) (r.input k) = false ∧
            commits cfg (r.state k) (r.input k) = false) ∧
          (Traces r m n ∨ ∃ src, Delivered r m n src)) ∧
      (∀ m < n, accepts cfg (r.state m) (r.input m) = true →
        (r.input n).lane.quiescent = true →
        ∃ c, m < c ∧ c ≤ n + 1 ∧ commits cfg (r.state c) (r.input c) = true) := by
  have hs := sound_run hext (hcut.mono (Nat.le_succ n))
  refine ⟨preempts_source hpin hext hs, fun hcommit => ?_, fun m hmn hacc hq =>
    commits_of_quiescent hext hcut hmn hacc hq⟩
  have hphase := commits_phase hcommit
  obtain ⟨m, hwindow⟩ := window_run hpin hext (hcut.mono (Nat.le_succ n))
    (by simp [hphase, Phase.draining]) (hs.commit hphase)
  refine ⟨m, hwindow.lt, hwindow.accepted, fun k h1 h2 =>
    ⟨(hwindow.quiet k h1 h2).1, (hwindow.quiet k h1 h2).2.1⟩, ?_⟩
  exact hwindow.delivers hpin htimers hext hs hcommit (hcut n (Nat.lt_succ_self n))
    (hclear m (Nat.lt_succ_of_lt hwindow.lt) hwindow.accepted)

end Runs

/-! ## Two acknowledgements -/

/-- A 602 with pins, timers and the watchdog. -/
def cfg602 : Cfg := { exc := { variant := .cpu602, enableFullDecode := true } }

/-- A held `mtspr` or `mtmsr` of `value`. -/
def moves (op : Flags.SpecialOp) (spr : BitVec 10) (value : BitVec 32) : Held where
  uop := { specialOp := op, spr := spr }
  a := value
  pc := 0
  ea := 0
  beat := false
  beat2 := false
  crSnapshot := 0
  memoryResult := default
  fetchPageMiss := default
  fetchMissEligible := false
  trapTaken := false
  blockZeroAlign := false
  mmuError := false
  tlbFillLocalError := false
  tlbFillInvalidate := false
  fpu := false
  fpuDouble := false

/-- A cycle of the lane `l` with `h` in it. -/
def cycle (l : LaneInput) (h : Held := moves .none 0 0) (commitMatch tick smi : Bool := false) :
    Input where
  lane := l
  held := h
  sdr1 := 0
  fex := false
  commitMatch := commitMatch
  event := {}
  interruptAdmit := true
  trace := false
  fetchMachineCheckHead := false
  stopped := false
  raise := {}
  sresetNegated := true
  smi := smi
  irq := false
  storeError := false
  tick := tick
  timebaseEnable := true

/-- Two watchdog periods end while interrupts are masked; the `mtmsr` that sets EE then commits,
with the SMI pin as `smi` says. -/
def watchdogInput (smi : Bool) : ℕ → Input
  | 0 | 3 => cycle { dispatchValid := true }
  | 1 | 4 | 7 | 11 => cycle { resultFire := true }
  | 2 => cycle {} (moves .mtspr 984 0x34000000) true
  | 5 | 8 => cycle {} (moves .mtspr 284 0x007fffff) true
  | 6 => cycle { dispatchValid := true } (moves .none 0 0) false true
  | 9 => cycle { dispatchValid := true, entry := .contextDrain, fenced := true }
  | 10 =>
    cycle { frontendQuiescent := true, memoryQuiescent := true } (moves .none 0 0) false true
  | 12 => cycle {} (moves .mtmsr 0 0x00008040) true false smi
  | 13 => cycle { contextReady := true } (moves .mtmsr 0 0x00008040) false false smi
  | 14 => cycle { redirectAccepted := true } (moves .mtmsr 0 0x00008040) false false smi
  | 16 => cycle { frontendQuiescent := true, memoryQuiescent := true }
  | _ => cycle {} (moves .none 0 0) false false smi

/-- The run. -/
def watchdogRun (smi : Bool) : Clocked.Run (machine cfg602) where
  start := reset cfg602 0
  initial := ⟨0, rfl⟩
  input := watchdogInput smi

/-- No recovery cuts the run. -/
theorem uncut_watchdogRun (smi : Bool) (n : ℕ) :
    (watchdogRun smi).Obeys (Uncut cfg602) n := fun k _ _ => by
  change (watchdogInput smi k).lane.cancel = false
  unfold watchdogInput
  split <;> rfl

/-- Without the SMI the boundary of edge 15 delivers the watchdog's reset alone. -/
theorem watchdogReset_delivered :
    ∃ m < 17, accepts cfg602 ((watchdogRun false).state m) ((watchdogRun false).input m) = true ∧
      (Traces (watchdogRun false) m 17 ∨ ∃ src, Delivered (watchdogRun false) m 17 src) := by
  obtain ⟨m, hm, hacc, -, h⟩ := (acknowledged_once (r := watchdogRun false) (n := 17) rfl rfl rfl
    (uncut_watchdogRun false 18)
    (show ∀ k < 18, _ = true → _ = false by decide +kernel)).2.1 (by decide +kernel)
  exact ⟨m, hm, hacc, h⟩

/-- With it the boundary acknowledges the watchdog's reset and the SMI, and delivers the reset. -/
theorem smi_acknowledged_with_watchdogReset :
    (watchdogRun true).Obeys (Uncut cfg602) 18 ∧
      accepts cfg602 ((watchdogRun true).state 15) ((watchdogRun true).input 15) = true ∧
      commits cfg602 ((watchdogRun true).state 17) ((watchdogRun true).input 17) = true ∧
      (watchdogRun true).emitted (acks cfg602) 15 18 = [.watchdogReset, .smi] ∧
      presented cfg602 ((watchdogRun true).state 17) ((watchdogRun true).input 17) =
        some .softReset ∧
      ¬ (Traces (watchdogRun true) 15 17 ∨ ∃ src, Delivered (watchdogRun true) 15 17 src) := by
  have hacks : (watchdogRun true).emitted (acks cfg602) 15 18 = [.watchdogReset, .smi] := by
    decide +kernel
  refine ⟨uncut_watchdogRun true 18, by decide +kernel, by decide +kernel, hacks,
    by decide +kernel, ?_⟩
  rintro (h | ⟨src, h⟩)
  · rw [h.acknowledged] at hacks
    exact absurd hacks (by simp)
  · rw [h.acknowledged] at hacks
    exact absurd hacks (by simp)

end Special
end SloPPC603
