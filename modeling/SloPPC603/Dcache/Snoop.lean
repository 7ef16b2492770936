import Mathlib.Tactic.IntervalCases
import SloPPC603.Dcache.Capture

/-!
# Snoops keep memory coherent

What the cache promises another bus master.  A snoop it answers without a retry
leaves its line as the other master's transfer needs it; a snoop of a line on its
way to memory is retried until the write completes; and a modified line stops
being modified only by being captured whole on its way out, or by one of the
operations that are meant to discard it.

* `snooped_invalid`, `snooped_clean` — the line after a snoop answered without a
  retry.
* `dirty_loss` — how a modified line stops being modified.
* `mei_safe` — the three together over a whole run.
-/

namespace SloPPC603
namespace Dcache

open Clocked

variable {cfg : Config} {s : State} {i : Input}

/-! ## After an unretried snoop -/

/-- The registered snoop is answered without a retry, and may change the line. -/
structure Unretried (cfg : Config) (s : State) (i : Input) : Prop where
  registered : s.snpValid = true
  real : s.snpProbe = false
  enabled : i.hid0Dce = true
  answer : sArtry cfg s i = false

theorem Unretried.conflict (h : Unretried cfg s i) (hc : snpClass s ≠ .none) :
    snpConflict s i = false := by
  have ha := h.answer
  cases hconf : snpConflict s i with
  | false => rfl
  | true => simp [sArtry, snpActs, h.registered, hc, hconf] at ha

/-- A hit line an unretried snoop finds is not modified, unless it is of kill class. -/
theorem Unretried.not_dirty (h : Unretried cfg s i) (hc : snpClass s ≠ .none)
    (hhit : hit cfg s = true) : hdirty cfg s = false ∨ snpClass s = .kill := by
  have ha := h.answer
  simp only [sArtry, snpActs, h.registered, hc, h.conflict hc, h.real, h.enabled, hhit, ne_eq,
    not_false_eq_true, decide_true, Bool.true_and, Bool.false_eq_true, if_false, Bool.and_eq_false_iff,
    decide_eq_false_iff_not, not_not] at ha
  exact ha

/-- **A flush or kill snoop answered without a retry leaves its line in no way.** -/
theorem snooped_invalid (ha : ArrayInv cfg s) (h : Unretried cfg s i)
    (hc : snpClass s = .flush ∨ snpClass s = .kill) {w : ℕ} (hw : w < cfg.wayCount) :
    ¬ holds cfg (running cfg s i) w (snpLine s) := by
  intro hh
  have hne : snpClass s ≠ .none := by rcases hc with hc | hc <;> simp [hc]
  have hclean : snpClass s ≠ .clean := by rcases hc with hc | hc <;> simp [hc]
  have hown := ha.owner.snoop h.registered
  rcases holds_running ha.lookup ha.owner hh with ⟨hold, -⟩ | ⟨hinst, -⟩
  · have hhw := (hitw_iff ha.lookup hown.1 hown.2).2 hold
    have hhit : hit cfg s = true := hit_iff.2 ⟨w, hw, hhw⟩
    have hway := (hitWay_snoop ha.lookup ha.owner ha.lines.unique h.registered hhit).2.2.2 w hw hhw
    have hdrop : sDrop cfg s i = true := by
      have hd := h.not_dirty hne hhit
      simp only [sDrop, snpHits, snpActs, h.registered, h.conflict hne, h.real, h.enabled, hhit, hne,
        hclean, ne_eq, not_false_eq_true, decide_true, Bool.not_false, Bool.and_true]
      rcases hd with hd | hd <;> simp [hd]
    have hv := hh.1
    rw [validAt_running, Bool.and_eq_true] at hv
    have hwe : stWe cfg s i = true ∧ cfg.setOf (snpLine s) = stWaddr cfg s := by
      simp [stWe, h.registered, sStWe, hdrop, stWaddr]
    rw [if_pos hwe] at hv
    simp [stWvalid, h.registered, sValid, hdrop, hway] at hv
  · exact absurd h.registered (by simp [(installGo_spec hinst).2])

/-- **A clean snoop answered without a retry leaves its line modified in no way.** -/
theorem snooped_clean (ha : ArrayInv cfg s) (h : Unretried cfg s i)
    (hc : snpClass s = .clean) {w : ℕ} (hw : w < cfg.wayCount) :
    ¬ holdsDirty cfg (running cfg s i) w (snpLine s) := by
  rintro ⟨hh, hd⟩
  have hne : snpClass s ≠ .none := by simp [hc]
  have hown := ha.owner.snoop h.registered
  rcases holds_running ha.lookup ha.owner hh with ⟨hold, -⟩ | ⟨hinst, -⟩
  · have hhw := (hitw_iff ha.lookup hown.1 hown.2).2 hold
    have hhit : hit cfg s = true := hit_iff.2 ⟨w, hw, hhw⟩
    obtain ⟨-, -, hdrt, huniq⟩ :=
      hitWay_snoop ha.lookup ha.owner ha.lines.unique h.registered hhit
    have hway := huniq w hw hhw
    have hclean : hdirty cfg s = false := by
      rcases h.not_dirty hne hhit with hd | hk
      · exact hd
      · simp [hc] at hk
    have hnowe : sStWe cfg s i = false := by simp [sStWe, sPush, sDrop, hclean, hc]
    have hnot : s.drt w = false := by rw [hway, ← hdrt, hclean]
    rw [ha.lookup.drt, dirtyAt, hown.1, hold.1, Bool.true_and] at hnot
    rw [stDirty_running, if_neg (by simp [stWe, h.registered, hnowe]), hnot] at hd
    cases hd
  · exact absurd h.registered (by simp [(installGo_spec hinst).2])

/-! ## How a modified line stops being modified -/

/-- The ways a modified line may stop being modified in its way: `t` is the
record after the edge. -/
inductive Loss (cfg : Config) (s : State) (i : Input) (t : Traffic) (w line : ℕ) : Prop
  | castout (h : t.castout = some ⟨line, lineWords cfg s w line⟩)
  | push (h : t.push = some ⟨line, lineWords cfg s w line⟩)
  | killed (hv : s.snpValid = true) (hp : s.snpProbe = false) (hc : snpClass s = .kill)
      (hl : snpLine s = line)
  | dcbi (hgo : lkGo cfg s i = true) (hop : s.reqOp = .dcbi) (hl : reqLine s = line)
  | flashed (h : flash s i = true)

/-- The line in a way is the one a hit of that way names. -/
theorem line_of_hit {w line own : ℕ} (hheld : holds cfg s w line)
    (hown : holds cfg s w own) (hset : cfg.setOf line = cfg.setOf own) : line = own := by
  refine (@line_eq_iff cfg _ _).2 ⟨hset, ?_⟩
  have htag := hheld.2
  rw [hset, hown.2] at htag
  exact htag.symm

theorem snoop_loss {t : Traffic} (ha : ArrayInv cfg s) {w line : ℕ}
    (hheld : holds cfg s w line) (hsnp : s.snpValid = true)
    (hset : cfg.setOf line = cfg.setOf (snpLine s)) (hv : s.vld w = true) (hd : s.drt w = true)
    (hwe : sStWe cfg s i = true) (hloss : ¬ (sValid cfg s i w = true ∧ sDirty cfg s i w = true)) :
    Loss cfg s i (t.update cfg s i) w line := by
  have hown := ha.owner.snoop hsnp
  obtain ⟨-, hprobe, hhit, -⟩ := sStWe_spec hwe
  obtain ⟨-, hhw, hdrt, -⟩ := hitWay_snoop ha.lookup ha.owner ha.lines.unique hsnp hhit
  have hway : w = hway cfg s := by
    by_contra hne
    exact hloss (by simp [sValid, sDirty, hne, hv, hd])
  have hline : line = snpLine s :=
    line_of_hit hheld (hway ▸ (hitw_iff ha.lookup hown.1 hown.2).1 hhw) hset
  cases hpush : sPush cfg s i with
  | true =>
    refine Loss.push ?_
    simp [Traffic.update, hpush, hway, hline]
  | false =>
    have hdrop : sDrop cfg s i = true := by simpa [sStWe, hpush] using hwe
    have hkill : snpClass s = .kill := by
      rw [hway] at hd
      simp only [sDrop, hdrt, hd, Bool.true_and, Bool.and_eq_true, Bool.not_eq_true',
        decide_eq_false_iff_not, ne_eq, not_not] at hdrop
      exact hdrop.1.2
    exact Loss.killed hsnp hprobe hkill hline.symm

theorem lookup_loss {t : Traffic} (ha : ArrayInv cfg s) {w line : ℕ} (hgo : lkGo cfg s i = true)
    (hheld : holds cfg s w line) (hset : cfg.setOf line = reqSet cfg s)
    (hv : s.vld w = true) (hd : s.drt w = true) (hwe : (lk cfg s i).stWe = true)
    (hloss : ¬ ((lk cfg s i).valid w = true ∧ (lk cfg s i).dirty w = true)) :
    Loss cfg s i (t.update cfg s i) w line := by
  have hhw := hitWay_lookup ha.lookup ha.owner ha.lines.unique hgo
  obtain ⟨hst, hsnp, -⟩ := lkGo_spec hgo
  have hown := ha.owner.req hsnp (by simp [hst])
  have hhit : hit cfg s = true → w = hway cfg s → line = reqLine s := by
    intro hhit hway
    exact line_of_hit hheld (hway ▸ (hitw_iff ha.lookup hown.1 hown.2).1 (hhw hhit).2.1) hset
  rcases lk_dirty_loss hhw hv hd hwe hloss with ⟨hop, hh, hway⟩ | ⟨hcob, hway⟩
  · exact Loss.dcbi hgo hop (hhit hh hway).symm
  · have hline : (lk cfg s i).cobLine = line := by
      cases hinst : (lk cfg s i).plan.install with
      | true =>
        obtain ⟨-, hvictim, -, -, -, -, hcl⟩ := lk_install hinst
        rw [hcl, ← hvictim, ← hway, ha.lookup.tag, hown.1, ← hset, hheld.2, lineAt_tagOf_setOf]
      | false =>
        obtain ⟨hh, -, hlw, hcl⟩ := (lk_hit hinst).1 hcob
        rw [hcl, hhit hh (hway.trans hlw)]
    refine Loss.castout ?_
    simp [Traffic.update, hgo, hcob, hline, ← hway]

/-- **A modified line stops being modified** by leaving whole, or by an operation
that discards it. -/
theorem dirty_loss {t : Traffic} (ha : ArrayInv cfg s) {w line : ℕ}
    (h : holdsDirty cfg s w line) (h' : ¬ holdsDirty cfg (running cfg s i) w line) :
    Loss cfg s i (t.update cfg s i) w line := by
  obtain ⟨hheld, hdirty⟩ := h
  cases hflash : flash s i with
  | true => exact Loss.flashed hflash
  | false =>
    -- an install goes to an invalid way, so the tag stays
    have htag : (running cfg s i).tagRam w (cfg.setOf line) = cfg.tagOf line := by
      rw [tagRam_running]
      split_ifs with hinst
      · obtain ⟨hgo, hway, hset⟩ := hinst
        have hphase : phaseOf s.state = some .install := by
          rw [(installGo_spec hgo).1]
          rfl
        have hplan := firstStep_eq_install (ha.control _ hphase).2
        have hinv := (ha.lines.install _ hphase hplan).2.1
        rw [← hway, ← hset, hheld.1] at hinv
        cases hinv
      · exact hheld.2
    have hwrite : stWe cfg s i = true ∧ cfg.setOf line = stWaddr cfg s := by
      by_contra hno
      refine h' ⟨⟨?_, htag⟩, ?_⟩
      · rw [validAt_running, hflash, if_neg hno]
        simpa using hheld.1
      · rw [stDirty_running, if_neg hno]
        exact hdirty
    have hloss : ¬ (stWvalid cfg s i w = true ∧ stWdirty cfg s i w = true) := by
      rintro ⟨hv, hd⟩
      refine h' ⟨⟨?_, htag⟩, ?_⟩
      · rw [validAt_running, hflash, if_pos hwrite]
        simpa using hv
      · rw [stDirty_running, if_pos hwrite]
        exact hd
    have hrd := stWe_set ha.owner hwrite.1
    have hv : s.vld w = true := by
      rw [ha.lookup.vld, hrd, ← hwrite.2]
      exact hheld.1
    have hd : s.drt w = true := by
      rw [ha.lookup.drt, hrd, ← hwrite.2, dirtyAt, hdirty, Bool.and_true]
      exact hheld.1
    cases hsnp : s.snpValid with
    | true =>
      have hset : cfg.setOf line = cfg.setOf (snpLine s) := by
        simpa [stWaddr, hsnp] using hwrite.2
      simp only [stWvalid, stWdirty, hsnp, if_true] at hloss
      exact snoop_loss ha hheld hsnp hset hv hd (by simpa [stWe, hsnp] using hwrite.1) hloss
    | false =>
      have hset : cfg.setOf line = reqSet cfg s := by simpa [stWaddr, hsnp] using hwrite.2
      cases hgo : lkGo cfg s i with
      | true =>
        simp only [stWvalid, stWdirty, hsnp, hgo, if_true, Bool.false_eq_true, if_false] at hloss
        exact lookup_loss ha hgo hheld hset hv hd (by simpa [stWe, hsnp, hgo] using hwrite.1) hloss
      | false =>
        have hinst : installGo s = true := by simpa [stWe, hsnp, hgo] using hwrite.1
        have hphase : phaseOf s.state = some .install := by
          rw [(installGo_spec hinst).1]
          rfl
        have hinv := (ha.lines.install _ hphase
          (firstStep_eq_install (ha.control _ hphase).2)).2.1
        have hne : w ≠ s.way := by
          rintro rfl
          rw [← hset, hheld.1] at hinv
          cases hinv
        exact absurd (by simp [stWvalid, stWdirty, hsnp, hgo, hinst, setWay, hne, hv, hd]) hloss

/-! ## A whole run -/

/-- The cache is out of reset with `HID0[DCE]` set. -/
structure SnoopEnv (_ : State) (i : Input) : Prop where
  running : i.rstN = true
  enabled : i.hid0Dce = true

/-- The answer, two edges later, to the snoop that arrives in cycle `j`. -/
structure SnoopAnswer (r : Run (machine cfg)) (j : ℕ) : Prop where
  answered : (r.state (j + 2)).snpRspValid = true
  invalid : (r.state (j + 2)).snpRspArtry = false → (r.input j).snoopProbe = false →
    (classOf (r.input j).snoopTt (r.input j).snoopBurst = .flush ∨
      classOf (r.input j).snoopTt (r.input j).snoopBurst = .kill) →
    ∀ w < cfg.wayCount, ¬ holds cfg (r.state (j + 2)) w (lineOf (r.input j).snoopAddr)
  clean : (r.state (j + 2)).snpRspArtry = false → (r.input j).snoopProbe = false →
    classOf (r.input j).snoopTt (r.input j).snoopBurst = .clean →
    ∀ w < cfg.wayCount, ¬ holdsDirty cfg (r.state (j + 2)) w (lineOf (r.input j).snoopAddr)
  /-- A line under way when the snoop is looked up is retried. -/
  retried : classOf (r.input j).snoopTt (r.input j).snoopBurst ≠ .none →
    (traffic r (j + 1)).underWay (lineOf (r.input j).snoopAddr) →
    (r.state (j + 2)).snpRspArtry = true

/-- What the buffers offer the bus is what they captured, and a capture is not
displaced by the next. -/
structure BufferSpec (s : State) (t : Traffic) : Prop where
  castout : s.state = .cobReq → busReqValid s = true → ∃ c, t.castout = some c ∧
    busReqAddr s = BitVec.ofNat 32 (c.line * 32) ∧ ∀ d < 4, busReqData s d = c.data d
  push : pushReqValid s = true → ∃ c, t.push = some c ∧
    pushReqAddr s = BitVec.ofNat 32 (c.line * 32) ∧ ∀ d < 4, s.pushData d = c.data d

theorem bufferSpec_of {t : Traffic} (h : CoherentInv cfg s t) : BufferSpec s t where
  castout hst hvalid := by
    have hphase : phaseOf s.state = some .cobRead := by rw [hst]; rfl
    have hcap : s.cobCap = false := by
      simp only [busReqValid, hst, Bool.and_eq_true, Bool.not_eq_true'] at hvalid
      exact hvalid.1
    cases hc : t.castout with
    | none => exact absurd hc (h.traffic.casting hphase)
    | some c =>
      obtain ⟨-, hread⟩ := h.capture.castout c hc
      rw [hst, hcap, decide_eq_false (by simp)] at hread
      refine ⟨c, rfl, by simp [busReqAddr, hst, (h.traffic.castout c hc).2], fun d hd => ?_⟩
      rw [busReqData, if_pos hst]
      exact hread.buffer_eq d hd
  push hvalid := by
    simp only [pushReqValid, Bool.and_eq_true, decide_eq_true_eq, Bool.not_eq_true'] at hvalid
    obtain ⟨hst, hcap⟩ := hvalid
    cases hc : t.push with
    | none => exact absurd hc (h.traffic.pushing (by simp [hst]))
    | some c =>
      have hread := h.capture.push c hc
      rw [hst, hcap, decide_eq_false (by simp)] at hread
      exact ⟨c, rfl, by rw [pushReqAddr, (h.traffic.push c hc).2], hread.buffer_eq⟩

/-- A line is captured into an empty buffer. -/
theorem capture_free {t : Traffic} (h : CoherentInv cfg s t) :
    (lkGo cfg s i = true → t.castout = none) ∧ (sPush cfg s i = true → t.push = none) := by
  constructor
  · intro hgo
    cases hc : t.castout with
    | none => rfl
    | some c => simp [lkGo_of_phase (h.traffic.castout c hc).1] at hgo
  · intro hs
    cases hc : t.push with
    | none => rfl
    | some c => exact absurd (sPush_spec hs).1 (h.traffic.push c hc).1

theorem snoopAnswer_run {r : Run (machine cfg)} {j : ℕ} (h : r.Obeys SnoopEnv (j + 2))
    (hsnp : (r.input j).snoopValid = true) : SnoopAnswer r j := by
  have hrun : r.Obeys OutOfReset (j + 2) := h.imp (fun _ _ hi => hi.running)
  have hcoh := coherentInv_run (hrun.mono (Nat.le_succ (j + 1)))
  have hi := h (j + 1) (Nat.lt_succ_self _)
  have hj := h j (by omega)
  have hnext : r.state (j + 2) = running cfg (r.state (j + 1)) (r.input (j + 1)) :=
    step_running hi.running
  have hreg : r.state (j + 1) = running cfg (r.state j) (r.input j) := step_running hj.running
  have hvalid : (r.state (j + 1)).snpValid = true := by
    rw [hreg]
    exact hsnp
  have hline : snpLine (r.state (j + 1)) = lineOf (r.input j).snoopAddr := by
    rw [hreg]
    simp [snpLine, running, hsnp]
  have hclass : snpClass (r.state (j + 1)) =
      classOf (r.input j).snoopTt (r.input j).snoopBurst := by
    rw [hreg]
    simp [snpClass, running, hsnp]
  have hprobe : (r.state (j + 1)).snpProbe = (r.input j).snoopProbe := by
    rw [hreg]
    simp [running, hsnp]
  have hartry : (r.state (j + 2)).snpRspArtry =
      sArtry cfg (r.state (j + 1)) (r.input (j + 1)) := by
    rw [hnext]
    rfl
  have hunretried : (r.state (j + 2)).snpRspArtry = false → (r.input j).snoopProbe = false →
      Unretried cfg (r.state (j + 1)) (r.input (j + 1)) := fun ha hp =>
    ⟨hvalid, hprobe.trans hp, hi.enabled, hartry ▸ ha⟩
  refine ⟨?_, ?_, ?_, ?_⟩
  · rw [hnext]
    exact hvalid
  · intro ha hp hc w hw
    rw [hnext, ← hline]
    exact snooped_invalid hcoh.arrays (hunretried ha hp) (hclass ▸ hc) hw
  · intro ha hp hc w hw
    rw [hnext, ← hline]
    exact snooped_clean hcoh.arrays (hunretried ha hp) (hclass ▸ hc) hw
  · intro hc hunder
    rw [← hline] at hunder
    have hconf := @conflict_of_underWay (r.state (j + 1)) (r.input (j + 1)) _ hcoh.arrays.castout
      hcoh.traffic hunder
    rw [hartry]
    simp [sArtry, snpActs, hvalid, hclass, hc, hconf]

/-- **MEI snoop safety.**  Over every run with the cache enabled: a snoop answered
without a retry leaves its line as its class asks; a clean, flush or kill snoop of
a line whose castout or push has not completed is retried; a modified line stops
being modified only by leaving whole or by an operation that discards it; and
what left whole is what the bus is offered. -/
theorem mei_safe (r : Run (machine cfg)) (n : ℕ) (h : r.Obeys SnoopEnv n) :
    (∀ j, j + 2 ≤ n → (r.input j).snoopValid = true → SnoopAnswer r j) ∧
      (∀ k < n, ∀ w line, holdsDirty cfg (r.state k) w line →
        ¬ holdsDirty cfg (r.state (k + 1)) w line →
          Loss cfg (r.state k) (r.input k) (traffic r (k + 1)) w line) ∧
      (∀ k ≤ n, BufferSpec (r.state k) (traffic r k)) ∧
      (∀ k < n, (lkGo cfg (r.state k) (r.input k) = true → (traffic r k).castout = none) ∧
        (sPush cfg (r.state k) (r.input k) = true → (traffic r k).push = none)) := by
  have hrun : r.Obeys OutOfReset n := h.imp (fun _ _ hi => hi.running)
  refine ⟨fun j hj hsnp => snoopAnswer_run (h.mono hj) hsnp, ?_, ?_, ?_⟩
  · intro k hk w line hd hnd
    have hnext : r.state (k + 1) = running cfg (r.state k) (r.input k) :=
      step_running (h k hk).running
    rw [hnext] at hnd
    exact dirty_loss (coherentInv_run (hrun.mono hk.le)).arrays hd hnd
  · intro k hk
    exact bufferSpec_of (coherentInv_run (hrun.mono hk))
  · intro k hk
    exact capture_free (coherentInv_run (hrun.mono hk.le))

/-! ## A castout and a snoop of its line -/

/-- Two ways of 64 sets, as the 602 has them. -/
def config602 : Config := ⟨false, 6, 1⟩

/-- `dcbz` makes line 0 modified, `dcbf` casts it out, and a snoop of transfer
type clean block arrives in between. -/
def castoutInputs : ℕ → Input
  | 0 => { hid0Dce := true, reqValid := true, reqOp := .dcbz }
  | 8 => { hid0Dce := true, reqValid := true, reqOp := .dcbf }
  | 10 => { hid0Dce := true, snoopValid := true, snoopTt := TT.clean }
  | _ => { hid0Dce := true, rspReady := true }

/-- The run of these inputs from reset. -/
def castoutRun : Run (machine config602) where
  start := step config602 default { rstN := false }
  initial := initial_reset config602
  input := castoutInputs

theorem castoutRun_obeys : castoutRun.Obeys SnoopEnv 12 := by
  intro k hk
  interval_cases k <;> exact ⟨rfl, rfl⟩

theorem mei_safe_castoutRun :
    (∀ j, j + 2 ≤ 12 → (castoutRun.input j).snoopValid = true → SnoopAnswer castoutRun j) ∧
      (∀ k < 12, ∀ w line, holdsDirty config602 (castoutRun.state k) w line →
        ¬ holdsDirty config602 (castoutRun.state (k + 1)) w line →
          Loss config602 (castoutRun.state k) (castoutRun.input k) (traffic castoutRun (k + 1))
            w line) ∧
      (∀ k ≤ 12, BufferSpec (castoutRun.state k) (traffic castoutRun k)) ∧
      (∀ k < 12,
        (lkGo config602 (castoutRun.state k) (castoutRun.input k) = true →
          (traffic castoutRun k).castout = none) ∧
        (sPush config602 (castoutRun.state k) (castoutRun.input k) = true →
          (traffic castoutRun k).push = none)) :=
  mei_safe castoutRun 12 castoutRun_obeys

/-- A snoop of no class is not retried, though the castout of its line is still
in its buffer. -/
theorem castout_snoop_unretried : castoutRun.Obeys SnoopEnv 12 ∧
    (castoutRun.input 10).snoopValid = true ∧
    (traffic castoutRun 11).underWay (lineOf (castoutRun.input 10).snoopAddr) ∧
    (castoutRun.state 12).snpRspValid = true ∧ (castoutRun.state 12).snpRspArtry = false := by
  refine ⟨castoutRun_obeys, rfl, ?_, by decide +kernel, by decide +kernel⟩
  have hcast : (traffic castoutRun 11).castout.map Capture.line = some 0 := by decide +kernel
  obtain ⟨c, hc, hline⟩ := Option.map_eq_some_iff.1 hcast
  exact ⟨c, hline, Or.inl hc⟩

end Dcache
end SloPPC603
