import SloPPC603.Special.Interrupts

/-!
# What a boundary selects

* `boundary_cases` — a boundary delivers its highest source or the trace.
* `boundary_source`, `boundary_trace` — what it latches and acknowledges at once.
* `preempt_source` — the same of a preemption.
* `flags_kind`, `flags_taken` — what the commit makes of the latched flags.
-/

namespace SloPPC603
namespace Special

open Exceptions (Event msrEe msrMe)

variable {cfg : Cfg}

/-! ## The boundary -/

/-- The flags that a source alone selects. -/
def Source.flags : Source → Selected
  | .machineCheckPin => { mcp := true }
  | .tea => { mcp := true, tea := true }
  | .addressParity => { mcp := true, ape := true }
  | .dataParity => { mcp := true, dpe := true }
  | .softReset | .watchdogReset => { softReset := true }
  | .smi => { smi := true }
  | .external => {}
  | .decrementer => { decrementer := true }
  | .watchdog => { watchdog := true }

/-- A source acknowledged at the boundary; the others wait for the commit. -/
def Source.immediate (src : Source) : Bool := src.rank ≤ 6

/-- The boundary delivers the trace: nothing above it is pending. -/
def Offered.Traced (cfg : Cfg) (o : Offered) : Prop :=
  traced cfg o = true ∧ ∀ t : Source, t.rank ≤ 5 → o.pending cfg t = false

/-- Something is pending or the trace is. -/
def Offered.Any (cfg : Cfg) (o : Offered) : Prop :=
  traced cfg o = true ∨ ∃ t, o.pending cfg t = true

theorem exists_highest {o : Offered} {t : Source} (h : o.pending cfg t = true) :
    ∃ src, o.Highest cfg src ∧ src.rank ≤ t.rank := by
  induction hn : t.rank using Nat.strong_induction_on generalizing t with
  | _ n ih =>
    by_cases hlow : ∃ u : Source, u.rank < t.rank ∧ o.pending cfg u = true
    · obtain ⟨u, hu, hpend⟩ := hlow
      obtain ⟨src, hsrc, hle⟩ := ih u.rank (by omega) hpend rfl
      exact ⟨src, hsrc, by omega⟩
    · refine ⟨t, ⟨h, fun u hu => ?_⟩, by omega⟩
      by_contra hpend
      exact hlow ⟨u, hu, by simpa using hpend⟩

/-- A boundary delivers its highest source or the trace. -/
theorem boundary_cases {o : Offered} (h : o.Any cfg) :
    o.Traced cfg ∨ ∃ src, o.Highest cfg src ∧ (traced cfg o = true → src.rank ≤ 5) := by
  by_cases htrace : traced cfg o = true
  · by_cases hany : ∃ t : Source, t.rank ≤ 5 ∧ o.pending cfg t = true
    · obtain ⟨t, ht, hpend⟩ := hany
      obtain ⟨src, hsrc, hle⟩ := exists_highest hpend
      exact Or.inr ⟨src, hsrc, fun _ => le_trans hle ht⟩
    · refine Or.inl ⟨htrace, fun t ht => ?_⟩
      by_contra hpend
      exact hany ⟨t, ht, by simpa using hpend⟩
  · obtain ⟨t, ht⟩ := h.resolve_left htrace
    obtain ⟨src, hsrc, -⟩ := exists_highest ht
    exact Or.inr ⟨src, hsrc, fun hh => absurd hh htrace⟩

/-- Below a machine check nothing is selected. -/
theorem selects_machineCheck {o : Offered} (hpin : cfg.enablePinInterrupts = true)
    (h : pinMachineCheck cfg o.pin = true) : mcpSelect cfg o.pin = true ∧
      watchdogResetSelect cfg o = false ∧ softResetSelect cfg o = false ∧
      smiSelect cfg o = false := by
  simp [mcpSelect, watchdogResetSelect, softResetSelect, smiSelect, hpin, h]

/-- What lies below the four machine checks. -/
theorem selects_below {o : Offered} (hpin : cfg.enablePinInterrupts = true)
    (h : pinMachineCheck cfg o.pin = false) : mcpSelect cfg o.pin = false ∧
      watchdogResetSelect cfg o = (o.watchdogReset && !o.pin.softReset) ∧
      softResetSelect cfg o = (o.pin.softReset || o.watchdogReset) ∧
      smiSelect cfg o = (o.pending cfg .smi && !o.pin.softReset && !traced cfg o) := by
  refine ⟨by simp [mcpSelect, h], by simp [watchdogResetSelect, hpin, h], ?_, ?_⟩
  · cases hs : o.pin.softReset <;> simp [softResetSelect, watchdogResetSelect, hpin, h, hs]
  · simp [smiSelect, Offered.pending, hpin, h]

/-- No machine check is pending. -/
theorem pinMachineCheck_false {o : Offered}
    (h : ∀ t : Source, t.rank < 4 → o.pending cfg t = false) :
    pinMachineCheck cfg o.pin = false := by
  have hm : o.pin.mcp = false := h .machineCheckPin (by decide)
  have ht : pinTea cfg o.pin = false := h .tea (by decide)
  have ha : o.pin.ape = false := h .addressParity (by decide)
  have hd : o.pin.dpe = false := h .dataParity (by decide)
  simp [pinMachineCheck, hm, ht, ha, hd]

/-- A machine check is pending. -/
theorem pinMachineCheck_true {o : Offered} {src : Source} (hrank : src.rank < 4)
    (h : o.pending cfg src = true) : pinMachineCheck cfg o.pin = true := by
  cases src with
  | machineCheckPin => simp [pinMachineCheck, show o.pin.mcp = true from h]
  | tea => simp [pinMachineCheck, show pinTea cfg o.pin = true from h]
  | addressParity => simp [pinMachineCheck, show o.pin.ape = true from h]
  | dataParity => simp [pinMachineCheck, show o.pin.dpe = true from h]
  | _ => exact absurd hrank (by decide)

/-- **The boundary.**  Unless an SMI stands behind the watchdog's reset, a boundary selects its
highest source alone, and acknowledges it alone. -/
theorem boundary_source {o : Offered} {src : Source} (hpin : cfg.enablePinInterrupts = true)
    (htimers : cfg.enableTimers = true) (hhidden : hidden cfg o = false)
    (hsrc : o.Highest cfg src) (htrace : traced cfg o = true → src.rank ≤ 5) :
    select cfg o = src.flags ∧ ∀ t, o.ack cfg t = (src.immediate && t = src) := by
  obtain ⟨hpend, hlow⟩ := hsrc
  by_cases hcheck : src.rank < 4
  · obtain ⟨hmcp, hwr, hsr, hsmi⟩ := selects_machineCheck hpin (pinMachineCheck_true hcheck hpend)
    have hm : 0 < src.rank → o.pin.mcp = false := hlow .machineCheckPin
    have ht : 1 < src.rank → pinTea cfg o.pin = false := hlow .tea
    have ha : 2 < src.rank → o.pin.ape = false := hlow .addressParity
    cases src with
    | machineCheckPin =>
      have hp : o.pin.mcp = true := hpend
      exact ⟨by simp [select, Source.flags, hmcp, hsr, hsmi, hp],
        fun t => by cases t <;> simp [Offered.ack, Source.immediate, Source.rank, hmcp, hsr, hwr,
          hsmi, hp]⟩
    | tea =>
      have hp : pinTea cfg o.pin = true := hpend
      have hm := hm (by decide)
      exact ⟨by simp [select, Source.flags, hmcp, hsr, hsmi, hp, hm],
        fun t => by cases t <;> simp [Offered.ack, Source.immediate, Source.rank, hmcp, hsr, hwr,
          hsmi, hp, hm]⟩
    | addressParity =>
      have hp : o.pin.ape = true := hpend
      have hm := hm (by decide)
      have ht := ht (by decide)
      exact ⟨by simp [select, Source.flags, hmcp, hsr, hsmi, hp, hm, ht],
        fun t => by cases t <;> simp [Offered.ack, Source.immediate, Source.rank, hmcp, hsr, hwr,
          hsmi, hp, hm, ht]⟩
    | dataParity =>
      have hm := hm (by decide)
      have ht := ht (by decide)
      have ha := ha (by decide)
      exact ⟨by simp [select, Source.flags, hmcp, hsr, hsmi, hm, ht, ha],
        fun t => by cases t <;> simp [Offered.ack, Source.immediate, Source.rank, hmcp, hsr, hwr,
          hsmi, hm, ht, ha]⟩
    | _ => exact absurd hcheck (by decide)
  · obtain ⟨hmcp, hwr, hsr, hsmi⟩ :=
      selects_below hpin (pinMachineCheck_false fun t ht => hlow t (by omega))
    have hs : 4 < src.rank → o.pin.softReset = false := hlow .softReset
    have hw : 5 < src.rank → o.watchdogReset = false := hlow .watchdogReset
    have hi : 6 < src.rank → o.pending cfg .smi = false := hlow .smi
    have htr : 5 < src.rank → traced cfg o = false := fun hrank => by
      by_contra h
      exact absurd (htrace (by simpa using h)) (by omega)
    cases src with
    | softReset =>
      have hp : o.pin.softReset = true := hpend
      rw [hp] at hwr hsr hsmi
      exact ⟨by simp [select, Source.flags, hmcp, hsr, hsmi],
        fun t => by cases t <;> simp [Offered.ack, Source.immediate, Source.rank, hmcp, hsr, hwr,
          hsmi]⟩
    | watchdogReset =>
      have hp : o.watchdogReset = true := hpend
      have hs := hs (by decide)
      have hsmi' : smiSelect cfg o = false := by
        simpa [hidden, hp, hs, hsmi, Offered.pending,
          pinMachineCheck_false fun t ht => hlow t (by
            have : Source.rank .watchdogReset = 5 := rfl
            omega)] using hhidden
      rw [hp, hs] at hwr hsr
      exact ⟨by simp [select, Source.flags, hmcp, hsr, hsmi'],
        fun t => by cases t <;> simp [Offered.ack, Source.immediate, Source.rank, hmcp, hsr, hwr,
          hsmi']⟩
    | smi =>
      rw [hs (by decide), htr (by decide), hpend] at hsmi
      rw [hs (by decide), hw (by decide)] at hwr hsr
      exact ⟨by simp [select, Source.flags, hmcp, hsr, hsmi, htr (by decide)],
        fun t => by cases t <;> simp [Offered.ack, Source.immediate, Source.rank, hmcp, hsr, hwr,
          hsmi]⟩
    | external =>
      rw [hi (by decide)] at hsmi
      rw [hs (by decide), hw (by decide)] at hwr hsr
      have hp : o.external = true ∧ o.msr.getLsbD msrEe = true := by
        simpa [Offered.pending] using hpend
      exact ⟨by simp [select, Source.flags, decrementerOffered, hmcp, hsr, hsmi, htr (by decide),
          hp.1],
        fun t => by cases t <;> simp [Offered.ack, Source.immediate, Source.rank, hmcp, hsr, hwr,
          hsmi]⟩
    | decrementer =>
      rw [hi (by decide)] at hsmi
      rw [hs (by decide), hw (by decide)] at hwr hsr
      have hp : o.decrementer = true ∧ o.msr.getLsbD msrEe = true := by
        simpa [Offered.pending] using hpend
      have he : o.external = false := by
        simpa [Offered.pending, hp.2] using hlow .external (by decide)
      exact ⟨by simp [select, Source.flags, decrementerOffered, hmcp, hsr, hsmi, htr (by decide),
          hp.1, he, htimers],
        fun t => by cases t <;> simp [Offered.ack, Source.immediate, Source.rank, hmcp, hsr, hwr,
          hsmi]⟩
    | watchdog =>
      rw [hi (by decide)] at hsmi
      rw [hs (by decide), hw (by decide)] at hwr hsr
      have hp : o.watchdogInterrupt = true ∧ o.msr.getLsbD msrEe = true := by
        simpa [Offered.pending] using hpend
      have he : o.external = false := by
        simpa [Offered.pending, hp.2] using hlow .external (by decide)
      have hd : o.decrementer = false := by
        simpa [Offered.pending, hp.2] using hlow .decrementer (by decide)
      exact ⟨by simp [select, Source.flags, decrementerOffered, hmcp, hsr, hsmi, htr (by decide),
          hp.1, hp.2, he, hd, htimers],
        fun t => by cases t <;> simp [Offered.ack, Source.immediate, Source.rank, hmcp, hsr, hwr,
          hsmi]⟩
    | _ => exact absurd (by decide) hcheck

/-- A boundary that delivers the trace acknowledges nothing. -/
theorem boundary_trace {o : Offered} (hpin : cfg.enablePinInterrupts = true)
    (h : o.Traced cfg) : select cfg o = { trace := true } ∧ ∀ t, o.ack cfg t = false := by
  obtain ⟨htrace, hlow⟩ := h
  obtain ⟨hmcp, hwr, hsr, hsmi⟩ :=
    selects_below hpin (pinMachineCheck_false fun t ht => hlow t (by omega))
  have hs : o.pin.softReset = false := hlow .softReset (by decide)
  have hw : o.watchdogReset = false := hlow .watchdogReset (by decide)
  rw [hs, htrace] at hsmi
  rw [hs, hw] at hwr hsr
  exact ⟨by simp [select, hmcp, hsr, hsmi, htrace],
    fun t => by cases t <;> simp [Offered.ack, hmcp, hsr, hwr, hsmi]⟩

/-! ## Preemptions -/

/-- The source of a preemption: the highest pin. -/
theorem preempt_source {o : Offered} (hsel : preemptSelect cfg o.pin o.msr = true) :
    ∃ src : Source, preemptKind cfg o.pin = src.kind ∧
      (∀ t, preemptAck cfg o.pin t = decide (t = src)) ∧ o.Highest cfg src := by
  simp only [preemptSelect, Bool.and_eq_true] at hsel
  obtain ⟨⟨-, hpin⟩, hsel⟩ := hsel
  by_cases hcheck : mcpSelect cfg o.pin = true
  · by_cases hm : o.pin.mcp = true
    · exact ⟨.machineCheckPin, by simp [preemptKind, hcheck, hm, Source.kind],
        fun t => by cases t <;> simp [preemptAck, hcheck, hm], hm,
        fun t ht => absurd ht (Nat.not_lt_zero _)⟩
    have hm : o.pin.mcp = false := by simpa using hm
    by_cases ht : pinTea cfg o.pin = true
    · exact ⟨.tea, by simp [preemptKind, hcheck, hm, ht, Source.kind],
        fun t => by cases t <;> simp [preemptAck, hcheck, hm, ht], ht,
        fun t hr => by cases t <;> first | exact hm | exact nomatch hr⟩
    have ht : pinTea cfg o.pin = false := by simpa using ht
    by_cases ha : o.pin.ape = true
    · exact ⟨.addressParity, by simp [preemptKind, hcheck, hm, ht, ha, Source.kind],
        fun t => by cases t <;> simp [preemptAck, hcheck, hm, ht, ha], ha,
        fun t hr => by cases t <;> first | exact hm | exact ht | exact nomatch hr⟩
    have ha : o.pin.ape = false := by simpa using ha
    have hd : o.pin.dpe = true := by
      simpa [mcpSelect, pinMachineCheck, hpin, hm, ht, ha] using hcheck
    exact ⟨.dataParity, by simp [preemptKind, hcheck, hm, ht, ha, Source.kind],
      fun t => by cases t <;> simp [preemptAck, hcheck, hm, ht, ha], hd,
      fun t hr => by cases t <;> first | exact hm | exact ht | exact ha | exact nomatch hr⟩
  · have hcheck : mcpSelect cfg o.pin = false := by simpa using hcheck
    have hnone : o.pin.mcp = false ∧ pinTea cfg o.pin = false ∧ o.pin.ape = false ∧
        o.pin.dpe = false := by
      simpa [mcpSelect, pinMachineCheck, hpin, and_assoc] using hcheck
    obtain ⟨hm, ht, ha, hd⟩ := hnone
    have hreset : o.pin.softReset = true := by simpa [hcheck] using hsel
    exact ⟨.softReset, by simp [preemptKind, hcheck, Source.kind],
      fun t => by cases t <;> simp [preemptAck, hcheck], hreset, fun t hr => by
        cases t <;>
          first | exact hm | exact ht | exact ha | exact hd | exact nomatch hr⟩

/-! ## The commit -/

/-- The flags of a source present its event. -/
theorem flags_kind (src : Source) : src.flags.kind = src.kind := by cases src <;> rfl

/-- The commit acknowledges a source that the boundary did not. -/
theorem flags_taken (src t : Source) : src.flags.taken t = (!src.immediate && t = src) := by
  cases src <;> cases t <;> rfl

/-- A source that checkstops is one that selects the machine check. -/
theorem flags_mcp (src : Source) : src.flags.mcp = src.checks := by cases src <;> rfl

/-- The order lists each source once. -/
theorem filter_ranked (src : Source) {p : Source → Bool} (h : ∀ t, p t = decide (t = src)) :
    Source.ranked.filter p = [src] := by
  have hp : p = fun t => decide (t = src) := funext h
  rw [hp]
  cases src <;> rfl

theorem filter_ranked_none {p : Source → Bool} (h : ∀ t, p t = false) :
    Source.ranked.filter p = [] := by
  have hp : p = fun _ => false := funext h
  rw [hp]
  rfl

end Special
end SloPPC603
