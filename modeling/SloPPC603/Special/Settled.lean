import SloPPC603.Special.Boundary

/-!
# The edges of the interrupt path

* `next_draining`, `run_interruptCommit` — how the lane enters and leaves an interrupt.
* `waiting_step` — nothing but its acknowledgement clears a source.
* `ack_accepts`, `ack_commit`, `ack_quiet` — where the acknowledgements come from.
* `Sound`, `sound_step` — what holds between edges.
-/

namespace SloPPC603
namespace Special

open Exceptions (Event msrEe msrMe)

variable {cfg : Cfg}

/-! ## The edges of the lane -/

section Edges

variable {q : Lane} {l : LaneInput} {c : Commit}

theorem next_accept (h : c.accept = true) : (q.next l c).phase = .contextDrain := by
  simp [Lane.next, h]

/-- A commit that is not a table operation's and raises an event keeps the lane until its
redirect. -/
theorem committed_event (hmmu : c.mmuOperation = false) (htlb : c.tlbFillOperation = false)
    (h : c.checkstopCommit = true ∨ c.eventValid = true) :
    (q.committed l c).phase = .checkstop ∨ (q.committed l c).phase = .exceptionResult := by
  rw [Lane.committed, hmmu, htlb]
  by_cases hcheck : c.checkstopCommit = true
  · simp [hcheck]
  · simp [hcheck, h.resolve_left hcheck]

theorem next_hold (hphase : q.phase = .hold) (haccept : c.accept = false)
    (hcancel : l.cancel = false) (hmatch : c.commitMatch = true) :
    q.next l c = q.committed l c := by
  simp [Lane.next, Lane.run, Lane.dispatchFire, haccept, hcancel, hphase, hmatch]

/-- A phase that an interrupt passes before its event. -/
def Phase.draining (p : Phase) : Bool := p = .contextDrain || p = .interruptCommit

theorem committed_draining : (q.committed l c).phase.draining = false := by
  grind [Lane.committed, Phase.draining]

theorem cancelled_draining : (q.cancelled l c).phase.draining = false := by
  obtain ⟨phase, fence, killed⟩ := q
  cases phase <;> grind [Lane.cancelled, Phase.draining]

theorem run_draining (h : q.phase.draining = false) : (q.run l c).phase.draining = false := by
  obtain ⟨phase, fence, killed⟩ := q
  cases phase <;> grind [Lane.run, Phase.draining, committed_draining]

/-- Only a boundary or a dispatch enters the drain. -/
theorem next_draining (haccept : c.accept = false) (hfire : q.dispatchFire l = false)
    (h : (q.next l c).phase.draining = true) :
    q.phase.draining = true ∧ l.cancel = false ∧ q.next l c = q.run l c := by
  by_cases hcancel : l.cancel = true
  · simp [Lane.next, haccept, hfire, hcancel, cancelled_draining] at h
  · have hrun : q.next l c = q.run l c := by simp [Lane.next, haccept, hfire, hcancel]
    refine ⟨?_, by simpa using hcancel, hrun⟩
    by_contra hdrain
    rw [hrun, run_draining (by simpa using hdrain)] at h
    cases h

/-- The commit follows the drain of an interrupt, or waits for the exception state. -/
theorem run_interruptCommit (h : (q.run l c).phase = .interruptCommit) :
    (q.phase = .contextDrain ∧ l.quiescent = true ∧ c.interrupt = true) ∨
      (q.phase = .interruptCommit ∧ (c.mcpSelected && !c.machineCheckEnable) = false ∧
        c.eventReady = false) := by
  have hc : (q.committed l c).phase ≠ .interruptCommit := fun h => by
    have := committed_draining (q := q) (l := l) (c := c)
    simp [Phase.draining, h] at this
  obtain ⟨phase, fence, killed⟩ := q
  cases phase <;> grind [Lane.run]

/-- A drain that goes on waits for fetch and memory. -/
theorem run_contextDrain (h : (q.run l c).phase = .contextDrain) :
    q.phase = .contextDrain ∧ l.quiescent = false := by
  have hc : (q.committed l c).phase ≠ .contextDrain := fun h => by
    have := committed_draining (q := q) (l := l) (c := c)
    simp [Phase.draining, h] at this
  obtain ⟨phase, fence, killed⟩ := q
  cases phase <;> grind [Lane.run]

theorem next_dispatch (haccept : c.accept = false) (h : q.dispatchFire l = true) :
    (q.next l c).phase = l.entry.phase := by
  simp [Lane.next, haccept, h]

theorem entry_ne (e : Entry) : e.phase ≠ .interruptCommit := by cases e <;> decide

/-- A stopped lane stays stopped. -/
theorem next_stopped (haccept : c.accept = false)
    (h : q.phase = .checkstop ∨ q.phase = .exceptionHalt) : (q.next l c).phase = q.phase := by
  rcases h with h | h <;> simp [Lane.next, Lane.dispatchFire, Lane.cancelled, Lane.run, haccept, h]

end Edges

/-! ## The machine's edge -/

/-- A source that waits for its acknowledgement. -/
def State.waiting (s : State) : Source → Bool
  | .machineCheckPin => s.latches.mcp
  | .tea => s.latches.tea || s.storeTea
  | .addressParity => s.latches.ape
  | .dataParity => s.latches.dpe
  | .softReset => s.latches.softReset
  | .watchdogReset => s.watchdog.reset
  | .smi => s.pin.smi
  | .external => s.external
  | .decrementer => s.timer.pending
  | .watchdog => s.watchdog.interrupt

/-- A level source whose pin is still asserted; a latched source needs no pin. -/
def Input.level (i : Input) : Source → Bool
  | .smi => i.smi
  | .external => i.irq
  | _ => true

section Edge

variable {s : State} {i : Input}

/-- **Nothing but its acknowledgement clears a source.** -/
theorem waiting_step {src : Source} (hpin : cfg.enablePinInterrupts = true)
    (hext : cfg.enableExternalInterrupts = true)
    (hmc : s.storeTea = true → cfg.exc.enableMachineCheck = true) (h : s.waiting src = true)
    (hack : ack cfg s i src = false) (hlevel : i.level src = true) :
    (step cfg s i).waiting src = true := by
  cases src with
  | machineCheckPin => simpa [State.waiting, step, Latches.step, held, hack] using Or.inr h
  | tea =>
    have h : s.latches.tea = true ∨ s.storeTea = true := by simpa [State.waiting] using h
    rcases h with h | h
    · simp [State.waiting, step, Latches.step, held, hack, h]
    · simp [State.waiting, step, Latches.step, storeTeaNext, held, hack, h, hmc h]
  | addressParity => simpa [State.waiting, step, Latches.step, held, hack] using Or.inr h
  | dataParity => simpa [State.waiting, step, Latches.step, held, hack] using Or.inr h
  | softReset => simpa [State.waiting, step, Latches.step, held, hack] using Or.inr h
  | watchdogReset =>
    simp only [State.waiting, step, hack]
    by_cases h602 : (cfg.has602 && cfg.exc.enableFullDecode) = true
    · rw [if_pos h602]
      exact Watchdog.reset_step h
    · rw [if_neg h602]
      exact h
  | smi =>
    have hlevel : i.smi = true := hlevel
    simp [State.waiting, step, pinNext, hpin, hlevel]
  | external =>
    have hlevel : i.irq = true := hlevel
    simp [State.waiting, step, hext, hlevel]
  | decrementer =>
    simp only [State.waiting, step, hack]
    split_ifs
    · exact Timer.pending_step h
    · exact h
  | watchdog =>
    simp only [State.waiting, step, hack]
    by_cases h602 : (cfg.has602 && cfg.exc.enableFullDecode) = true
    · rw [if_pos h602]
      exact Watchdog.interrupt_step h
    · rw [if_neg h602]
      exact h

/-! ### Where the acknowledgements come from -/

theorem accepts_idle (h : accepts cfg s i = true) : s.lane.phase = .idle := by
  simp only [accepts, Bool.and_eq_true, decide_eq_true_eq] at h
  exact h.1.2

theorem holdMatch_hold (h : holdMatch s i = true) : s.lane.phase = .hold := by
  simp only [holdMatch, Bool.and_eq_true, decide_eq_true_eq] at h
  exact h.1

theorem preempts_hold (h : preempts cfg s i = true) : holdMatch s i = true := by
  simp only [preempts, preempted, Bool.and_eq_true] at h
  exact h.2.1

theorem accepts_eq_false (h : s.lane.phase ≠ .idle) : accepts cfg s i = false := by
  by_contra hacc
  exact h (accepts_idle (by simpa using hacc))

theorem holdMatch_eq_false (h : s.lane.phase ≠ .hold) : holdMatch s i = false := by
  by_contra hmatch
  exact h (holdMatch_hold (by simpa using hmatch))

theorem holdCommit_eq_false (h : s.lane.phase ≠ .hold) : holdCommit s i = false := by
  simp [holdCommit, holdMatch_eq_false h]

theorem preempts_eq_false (h : s.lane.phase ≠ .hold) : preempts cfg s i = false := by
  simp [preempts, holdCommit_eq_false h]

/-- A boundary's edge acknowledges what the boundary does. -/
theorem ack_accepts (h : accepts cfg s i = true) (src : Source) :
    ack cfg s i src = (offered s i).ack cfg src := by
  have hidle := accepts_idle h
  have hhold : s.lane.phase ≠ .hold := by simp [hidle]
  simp [ack, answers, h, preempts_eq_false hhold, holdCommit_eq_false hhold, hidle]

/-- An interrupt's edge acknowledges what its commit does. -/
theorem ack_commit (h : s.lane.phase = .interruptCommit) (src : Source) :
    ack cfg s i src = (fires cfg s i && s.selected.taken src) := by
  have hhold : s.lane.phase ≠ .hold := by simp [h]
  have hidle : s.lane.phase ≠ .idle := by simp [h]
  simp [ack, answers, accepts_eq_false hidle, preempts_eq_false hhold, holdCommit_eq_false hhold, h]

/-- No other edge outside a hold acknowledges anything. -/
theorem ack_quiet (hidle : accepts cfg s i = false) (hhold : s.lane.phase ≠ .hold)
    (hcommit : s.lane.phase ≠ .interruptCommit) (src : Source) : ack cfg s i src = false := by
  simp [ack, answers, hidle, preempts_eq_false hhold, holdCommit_eq_false hhold, hcommit]

/-- A preemption's own acknowledgements. -/
theorem ack_preempts (h : preempts cfg s i = true)
    (hcheck : i.held.machineCheckEvent cfg = true → s.exc.msr.getLsbD msrMe = true → False)
    (src : Source) : ack cfg s i src = preemptAck cfg s.pin src := by
  have hhold := holdMatch_hold (preempts_hold h)
  have hidle : s.lane.phase ≠ .idle := by simp [hhold]
  have hanswer : answers cfg s i src = false := by
    by_contra hans
    simp only [answers, Bool.not_eq_false, Bool.and_eq_true] at hans
    exact hcheck hans.1.2 hans.2
  simp [ack, hanswer, accepts_eq_false hidle, h, hhold]

/-- An operation that raises an event is none of the tables'. -/
theorem mmuOperation_of_raises (h : i.held.raises = true) :
    mmuOperation cfg i = false ∧ tlbFillOperation cfg i = false := by
  unfold Held.raises at h
  unfold mmuOperation tlbFillOperation tlbFillOpcode
  generalize i.held.uop.specialOp = op at h ⊢
  simp only [List.mem_cons, List.not_mem_nil, or_false, decide_eq_true_eq] at h
  rcases h with h | h | h | h | h | h | h | h | h | h | h | h | h | h | h <;> simp [h]

theorem presentedEvent_isSome {p : PinEvent} {msr : BitVec 32} {o : Option Event} :
    (presentedEvent cfg p msr o).isSome = o.isSome := by
  cases o with
  | none => simp [presentedEvent, pinPreempt]
  | some e => by_cases h : pinPreempt cfg p msr (some e) = true <;> simp [presentedEvent, h]

/-- What a held commit presents. -/
theorem presented_hold (h : holdMatch s i = true) :
    presented cfg s i = presentedEvent cfg s.pin s.exc.msr (own cfg s i) := by
  simp [presented, h, holdMatch_hold h]

/-- What an interrupt presents at its commit. -/
theorem presented_commit (hext : cfg.enableExternalInterrupts = true)
    (h : s.lane.phase = .interruptCommit) : presented cfg s i =
      if s.selected.mcp && !s.exc.msr.getLsbD msrMe then none else some s.selected.kind := by
  simp [presented, h, hext]

/-- Nothing is presented elsewhere. -/
theorem presented_none (hhold : s.lane.phase ≠ .hold) (h : s.lane.phase ≠ .interruptCommit) :
    presented cfg s i = none := by
  simp [presented, h, holdMatch_eq_false hhold]

/-- A held commit that raises an event or a checkstop ends the lane's work. -/
theorem next_hold_event (hmatch : holdMatch s i = true) (hcancel : i.lane.cancel = false)
    (hraises : i.held.raises = true)
    (h : checkstopCommit cfg s i = true ∨ (presented cfg s i).isSome = true) :
    (step cfg s i).lane.phase = .checkstop ∨ (step cfg s i).lane.phase = .exceptionResult := by
  have hhold := holdMatch_hold hmatch
  have hidle : accepts cfg s i = false := accepts_eq_false (by simp [hhold])
  have hcommit : i.commitMatch = true := by
    simp only [holdMatch, Bool.and_eq_true] at hmatch
    exact hmatch.2
  obtain ⟨hmmu, htlb⟩ := @mmuOperation_of_raises cfg _ hraises
  change (s.lane.next i.lane (commit cfg s i)).phase = _ ∨
    (s.lane.next i.lane (commit cfg s i)).phase = _
  rw [next_hold hhold hidle hcancel hcommit]
  exact committed_event hmmu htlb h

/-- The taken event of an interrupt ends its commit. -/
theorem next_commit_fires (hphase : s.lane.phase = .interruptCommit)
    (hcancel : i.lane.cancel = false) (hext : cfg.enableExternalInterrupts = true)
    (h : fires cfg s i = true) : (step cfg s i).lane.phase = .exceptionResult := by
  simp only [fires, Bool.and_eq_true] at h
  have hidle : accepts cfg s i = false := accepts_eq_false (by simp [hphase])
  have hno : (s.selected.mcp && !s.exc.msr.getLsbD msrMe) = false := by
    by_contra hcheck
    rw [presented_commit hext hphase, if_pos (by simpa using hcheck)] at h
    exact absurd h.1 (by decide)
  change (s.lane.next i.lane (commit cfg s i)).phase = _
  simp [Lane.next, Lane.run, Lane.dispatchFire, commit, hidle, hphase, hcancel, hno, h.2]

/-! ### The invariant -/

/-- A source that the core samples from a latch. -/
def Source.sampled : Source → Bool
  | .machineCheckPin | .tea | .addressParity | .dataParity | .softReset => true
  | _ => false

theorem taken_sampled {f : Selected} {src : Source} (h : src.sampled = true) :
    f.taken src = false := by
  cases src <;> first | rfl | cases h

/-- The core's sample of a latch. -/
def PinEvent.sees (p : PinEvent) : Source → Bool
  | .machineCheckPin => p.mcp
  | .tea => p.tea
  | .addressParity => p.ape
  | .dataParity => p.dpe
  | .softReset => p.softReset
  | _ => false

/-- What holds between edges. -/
structure Sound (cfg : Cfg) (s : State) : Prop where
  /-- A sample outlives its latch for one cycle, which an event or a drain passes. -/
  fresh : s.lane.phase = .contextDrain ∨ s.lane.phase = .exceptionResult ∨
    s.lane.phase = .checkstop ∨ ∀ src, s.pin.sees src = true → s.waiting src = true
  store : s.storeTea = true → cfg.exc.enableMachineCheck = true
  commit : s.lane.phase = .interruptCommit → s.interrupt = true
  result : s.exc.resultValid = true → s.lane.phase = .exceptionResult ∨
    s.lane.phase = .checkstop ∨ s.lane.phase = .exceptionHalt

/-- The edge that acknowledges a sampled source enters a drain or ends in an event. -/
theorem next_of_ack {src : Source} (hcut : Uncut cfg s i) (hsampled : src.sampled = true)
    (h : ack cfg s i src = true) : (step cfg s i).lane.phase = .contextDrain ∨
      (step cfg s i).lane.phase = .exceptionResult ∨ (step cfg s i).lane.phase = .checkstop := by
  simp only [ack, Bool.or_eq_true, Bool.and_eq_true] at h
  rcases h with ((⟨hacc, -⟩ | ⟨hpre, -⟩) | hans) | ⟨⟨-, -⟩, htaken⟩
  · exact Or.inl (next_accept hacc)
  · have hmatch := preempts_hold hpre
    simp only [preempts, preempted, Bool.and_eq_true] at hpre
    obtain ⟨-, -, hpre⟩ := hpre
    obtain ⟨e, he⟩ : ∃ e, own cfg s i = some e := by
      cases hown : own cfg s i with
      | none => simp [hown, pinPreempt] at hpre
      | some e => exact ⟨e, rfl⟩
    have hsome : (presented cfg s i).isSome = true := by
      rw [presented_hold hmatch, presentedEvent_isSome, he]
      rfl
    exact Or.inr (next_hold_event hmatch (hcut (Or.inr (Or.inl hsome)))
      (Held.raises_of_ownEvent he) (Or.inr hsome)).symm
  · simp only [answers, holdCommit, Bool.and_eq_true, Bool.not_eq_true'] at hans
    obtain ⟨⟨⟨-, hcancel, hmatch⟩, hcheck⟩, hme⟩ := hans
    have hraises := Held.raises_of_machineCheck hcheck
    refine Or.inr (next_hold_event hmatch hcancel hraises ?_).symm
    by_cases hrepeat : i.held.uop.fetchFault = .teaRepeat
    · exact Or.inl (by simp [checkstopCommit, hmatch, hcheck, hrepeat])
    · have hown : own cfg s i = some .machineCheck :=
        Held.ownEvent_enabled (v := view s i) hcheck hme hrepeat
      exact Or.inr (by rw [presented_hold hmatch, presentedEvent_isSome, hown]; rfl)
  · rw [taken_sampled hsampled] at htaken
    cases htaken

/-- An unacknowledged latch is still set when the core's sample of it shows. -/
theorem sees_step {src : Source} (hack : ack cfg s i src = false)
    (h : (step cfg s i).pin.sees src = true) : (step cfg s i).waiting src = true := by
  have hpin : (step cfg s i).pin = pinNext cfg s i := rfl
  rw [hpin] at h
  by_cases hen : cfg.enablePinInterrupts = true
  · cases src with
    | machineCheckPin =>
      have h : s.latches.mcp = true := by simpa [PinEvent.sees, pinNext, hen] using h
      simp [State.waiting, step, Latches.step, held, hack, h]
    | tea =>
      have h : s.latches.tea = true ∨ storeTeaNext cfg s i = true := by
        simpa [PinEvent.sees, pinNext, hen] using h
      rcases h with h | h
      · simp [State.waiting, step, Latches.step, held, hack, h]
      · simp [State.waiting, step, h]
    | addressParity =>
      have h : s.latches.ape = true := by simpa [PinEvent.sees, pinNext, hen] using h
      simp [State.waiting, step, Latches.step, held, hack, h]
    | dataParity =>
      have h : s.latches.dpe = true := by simpa [PinEvent.sees, pinNext, hen] using h
      simp [State.waiting, step, Latches.step, held, hack, h]
    | softReset =>
      have h : s.latches.softReset = true ∧ i.sresetNegated = true := by
        simpa [PinEvent.sees, pinNext, hen] using h
      simp [State.waiting, step, Latches.step, held, hack, h.1]
    | _ => cases h
  · cases src with
    | tea =>
      have h : storeTeaNext cfg s i = true := by simpa [PinEvent.sees, pinNext, hen] using h
      simp [State.waiting, step, h]
    | _ => simp [PinEvent.sees, pinNext, hen] at h

theorem interrupt_keeps (hacc : accepts cfg s i = false)
    (hfire : s.lane.dispatchFire i.lane = false) (h : s.lane.phase.draining = true) :
    (step cfg s i).interrupt = s.interrupt := by
  have hne : s.lane.phase ≠ .contextRedirect := fun hr => by simp [hr, Phase.draining] at h
  simp [step, interruptNext, hacc, hfire, hne]

/-- **One edge.** -/
theorem sound_step (hext : cfg.enableExternalInterrupts = true) (h : Sound cfg s)
    (hcut : Uncut cfg s i) : Sound cfg (step cfg s i) := by
  refine ⟨?_, fun hstore => ?_, fun hphase => ?_, fun hvalid => ?_⟩
  · by_cases hany : ∃ src : Source, src.sampled = true ∧ ack cfg s i src = true
    · obtain ⟨src, hsampled, hack⟩ := hany
      rcases next_of_ack hcut hsampled hack with hp | hp | hp
      · exact Or.inl hp
      · exact Or.inr (Or.inl hp)
      · exact Or.inr (Or.inr (Or.inl hp))
    · refine Or.inr (Or.inr (Or.inr fun src hsee => sees_step ?_ hsee))
      by_contra hack
      refine hany ⟨src, ?_, by simpa using hack⟩
      cases src <;> first | rfl | cases hsee
  · have hstore : storeTeaNext cfg s i = true := hstore
    simp only [storeTeaNext, Bool.and_eq_true] at hstore
    exact hstore.1
  · have hphase : (s.lane.next i.lane (commit cfg s i)).phase = .interruptCommit := hphase
    have hacc : accepts cfg s i = false := by
      by_contra hacc
      rw [next_accept (c := commit cfg s i) (by simpa [commit] using hacc)] at hphase
      cases hphase
    have hfire : s.lane.dispatchFire i.lane = false := by
      by_contra hfire
      rw [next_dispatch (c := commit cfg s i) hacc (by simpa using hfire)] at hphase
      exact entry_ne _ hphase
    obtain ⟨hdrain, -, hrun⟩ := next_draining (c := commit cfg s i) hacc hfire
      (by simp [hphase, Phase.draining])
    rw [interrupt_keeps hacc hfire hdrain]
    rw [hrun] at hphase
    rcases run_interruptCommit hphase with ⟨-, -, hint⟩ | ⟨hp, -, -⟩
    · exact hint
    · exact h.commit hp
  · have hvalid : (Exceptions.step cfg.exc s.exc (exceptionInput cfg s i)).resultValid = true :=
      hvalid
    rw [Exceptions.step_resultValid rfl, Bool.or_eq_true] at hvalid
    rcases hvalid with hfire | hkept
    · have hsome : (presented cfg s i).isSome = true := by
        simp only [Exceptions.eventFire, Bool.and_eq_true] at hfire
        exact hfire.1.1
      have hfires : fires cfg s i = true := by
        simp only [Exceptions.eventFire, Bool.and_eq_true] at hfire
        simp [fires, eventReady, hsome, hfire.2]
      have hcancel := hcut (Or.inr (Or.inl hsome))
      by_cases hhold : s.lane.phase = .hold
      · have hmatch : holdMatch s i = true := by
          by_contra hno
          simp [presented, hhold, hno] at hsome
        obtain ⟨e, he⟩ : ∃ e, own cfg s i = some e := by
          rw [presented_hold hmatch, presentedEvent_isSome] at hsome
          exact Option.isSome_iff_exists.1 hsome
        rcases next_hold_event hmatch hcancel (Held.raises_of_ownEvent he) (Or.inr hsome)
          with hp | hp
        · exact Or.inr (Or.inl hp)
        · exact Or.inl hp
      · have hcommit : s.lane.phase = .interruptCommit := by
          by_contra hno
          rw [presented_none hhold hno] at hsome
          cases hsome
        exact Or.inl (next_commit_fires hcommit hcancel hext hfires)
    · simp only [Bool.and_eq_true, Bool.not_eq_true'] at hkept
      obtain ⟨hv, hready⟩ := hkept
      have hready : s.lane.resultReady i.lane = false := hready
      rcases h.result hv with hp | hp
      · have hacc : accepts cfg s i = false := accepts_eq_false (by simp [hp])
        have hcancel := hcut (Or.inr (Or.inr hp))
        left
        change (s.lane.next i.lane (commit cfg s i)).phase = _
        simp [Lane.next, Lane.run, Lane.dispatchFire, commit, hacc, hp, hcancel, hready]
      · have hacc : accepts cfg s i = false := accepts_eq_false (by rcases hp with hp | hp <;> simp [hp])
        have hstay : (step cfg s i).lane.phase = s.lane.phase := next_stopped hacc hp
        rw [hstay]
        exact Or.inr hp

theorem sound_reset (hid0 : BitVec 32) : Sound cfg (reset cfg hid0) := by
  refine ⟨Or.inr (Or.inr (Or.inr fun src h => ?_)), fun h => ?_, fun h => ?_, fun h => ?_⟩
  · cases src <;> cases h
  · cases h
  · exact absurd h (show Phase.idle ≠ .interruptCommit by decide)
  · cases h

/-- What is pending at a boundary, or at a hold, waits for its acknowledgement. -/
theorem waiting_of_pending {t : Source} (h : Sound cfg s)
    (hphase : s.lane.phase = .idle ∨ s.lane.phase = .hold)
    (hpend : (offered s i).pending cfg t = true) : s.waiting t = true := by
  have hsees : ∀ src, s.pin.sees src = true → s.waiting src = true := by
    rcases h.fresh with hp | hp | hp | hsees
    · rcases hphase with hq | hq <;> rw [hp] at hq <;> cases hq
    · rcases hphase with hq | hq <;> rw [hp] at hq <;> cases hq
    · rcases hphase with hq | hq <;> rw [hp] at hq <;> cases hq
    · exact hsees
  cases t with
  | machineCheckPin | addressParity | dataParity | softReset => exact hsees _ hpend
  | tea =>
    have hpend : pinTea cfg s.pin = true := hpend
    simp only [pinTea, Bool.and_eq_true] at hpend
    exact hsees .tea hpend.2
  | watchdogReset => exact hpend
  | smi | external | decrementer | watchdog =>
    simp only [Offered.pending, Bool.and_eq_true] at hpend
    exact hpend.1

/-- MSR outlives an edge that presents no event and loads nothing. -/
theorem msr_step (hnone : presented cfg s i = none) (hhold : s.lane.phase ≠ .hold) :
    (step cfg s i).exc.msr = s.exc.msr := by
  have hfire : Exceptions.eventFire s.exc (exceptionInput cfg s i) = false := by
    simp [Exceptions.eventFire, exceptionInput, hnone]
  have hload : Exceptions.stateLoadFire s.exc (exceptionInput cfg s i) = false := by
    simp [Exceptions.stateLoadFire, exceptionInput, holdMatch_eq_false hhold]
  change (Exceptions.step cfg.exc s.exc (exceptionInput cfg s i)).msr = _
  rw [Exceptions.step_quiet rfl hfire hload]

/-- An interrupt that waits for the exception state leaves MSR. -/
theorem msr_waits (hready : eventReady cfg s i = false) :
    (step cfg s i).exc.msr = s.exc.msr := by
  have hslot : Exceptions.slotAvailable s.exc (exceptionInput cfg s i) = false := hready
  change (Exceptions.step cfg.exc s.exc (exceptionInput cfg s i)).msr = _
  rw [Exceptions.step_quiet rfl (by simp [Exceptions.eventFire, hslot])
    (by simp [Exceptions.stateLoadFire, hslot])]

end Edge

end Special
end SloPPC603
