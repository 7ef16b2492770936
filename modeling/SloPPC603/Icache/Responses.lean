import SloPPC603.Clocked.LeadsTo
import SloPPC603.Icache.Lines

/-!
# One response for each fetch

* `Log` — the fetches accepted, and how each of them ended, as the fetch port shows them.
* `Answers` — a response with the word, and the word after it, of a line.
* `ResponseInv`, `responseInv_step` — what the response registers hold, and for which fetch.
* `Serves`, `ends_leadsTo` — surroundings in which every fetch ends.
* `neverStale` — no response is stale, none is lost and no way is half written.
-/

namespace SloPPC603
namespace Icache

open Words Clocked

variable {cfg : Config}

section Edge

variable {m : ℕ} {s : State m} {i : Input m} {t : Transport m}

/-! ## The record of the fetch port -/

/-- A reset, a kill or a flash invalidate ends the fetch in progress. -/
def cancels (i : Input m) : Bool := !i.rstN || i.kill || i.invalidate

/-- The fetches accepted, and for each that has ended its response, if it was not killed. -/
structure Log (m : ℕ) where
  accepted : List (BitVec 32)
  ended : List (Option (Response m))

/-- Nothing has passed. -/
def Log.start : Log m := ⟨[], []⟩

/-- The record after an edge. -/
def Log.update (cfg : Config) (l : Log m) (s : State m) (i : Input m) : Log m where
  accepted := l.accepted ++ if accept s i then [i.fetchAddr] else []
  ended := l.ended ++
    if cancels i then List.replicate (l.accepted.length - l.ended.length) none
    else if rspTaken s i then [some (response cfg s)] else []

/-- A fetch is in progress. -/
def owes (s : State m) : Bool :=
  s.rspValid || decide (s.state = .refillRequest ∨ s.state = .refillWait)

/-! ## The response registers -/

/-- A response with a word of a line; the next word, when it is there, is of that line too. -/
structure Answers (cfg : Config) (line : Line m) (word : ℕ) (r : Response m) : Prop where
  insn : r.insn = (line word).word
  metadata : r.metadata = if cfg.metadata then (line word).metadata else 0
  next : r.pair = true → word % 2 = 0 ∧ r.nextInsn = (line (word + 1)).word ∧
    r.nextMetadata = if cfg.metadata then (line (word + 1)).metadata else 0

/-- The RAM response: one way's row is selected. -/
structure RamResponse (cfg : Config) (s : State m) (line : Line m) (word : ℕ) : Prop where
  insn : s.rspInsn = 0
  metadata : s.rspMeta = 0
  index : s.rspWord = word % 4
  way : ∃ w < cfg.wayCount, s.rspWay w = true ∧ s.rowRdata w = line.half (word / 4) ∧
    ∀ v < cfg.wayCount, s.rspWay v = true → v = w

/-- The response of a refill: no way is selected. -/
structure LineResponse (cfg : Config) (s : State m) (line : Line m) (word : ℕ) : Prop where
  insn : s.rspInsn = (line word).word
  metadata : s.rspMeta = (line word).metadata
  way : ∀ w < cfg.wayCount, s.rspWay w = false

theorem zero_or_word {w : ℕ} (x : BitVec w) : 0 ||| x = x := BitVec.zero_or

theorem word_or_zero {w : ℕ} (x : BitVec w) : x ||| 0 = x := BitVec.or_zero

theorem ramInsn_one {w : ℕ} (hw : w < cfg.wayCount) (hsel : s.rspWay w = true)
    (huniq : ∀ v < cfg.wayCount, s.rspWay v = true → v = w) (k : ℕ) :
    ramInsn cfg s k = (s.rowRdata w k).word ∧
      ramMeta cfg s k = if cfg.metadata then (s.rowRdata w k).metadata else 0 := by
  have hnd : (ways cfg).Nodup := List.nodup_range
  have hmem : w ∈ ways cfg := List.mem_range.2 hw
  have hu : ∀ v ∈ ways cfg, s.rspWay v = true → v = w := fun v hv => huniq v (List.mem_range.1 hv)
  rw [ramInsn, ramMeta, gather_one hnd hmem hsel hu, gather_one hnd hmem hsel hu,
    zero_or_word, zero_or_word]
  exact ⟨rfl, rfl⟩

theorem RamResponse.answers {line : Line m} {word : ℕ} (h : RamResponse cfg s line word) :
    Answers cfg line word (response cfg s) := by
  obtain ⟨hinsn, hmeta, hword, w, hw, hsel, hrow, huniq⟩ := h
  have hread := fun k => ramInsn_one hw hsel huniq k
  have hself : 4 * (word / 4) + word % 4 = word := Nat.div_add_mod word 4
  have hcell : s.rowRdata w s.rspWord = line word := by
    rw [hrow, hword, Line.half, hself]
  refine ⟨?_, ?_, ?_⟩
  · show s.rspInsn ||| ramInsn cfg s s.rspWord = _
    rw [hinsn, zero_or_word, (hread _).1, hcell]
  · show (if cfg.metadata then s.rspMeta else 0) ||| ramMeta cfg s s.rspWord = _
    rw [hmeta, ite_self, zero_or_word, (hread _).2, hcell]
  · intro hpair
    have heven : s.rspWord % 2 = 0 := by
      simp only [response, Bool.and_eq_true, beq_iff_eq] at hpair
      exact hpair.2
    have hnext : s.rowRdata w (s.rspWord / 2 * 2 + 1) = line (word + 1) := by
      rw [hrow, Line.half]
      congr 1
      omega
    refine ⟨by omega, ?_, ?_⟩
    · rw [← hnext]
      exact (hread _).1
    · rw [← hnext]
      exact (hread _).2

theorem LineResponse.answers {line : Line m} {word : ℕ} (h : LineResponse cfg s line word) :
    Answers cfg line word (response cfg s) := by
  obtain ⟨hinsn, hmeta, hway⟩ := h
  have hnone : ∀ w ∈ ways cfg, s.rspWay w = false := fun w hw => hway w (List.mem_range.1 hw)
  have hread : ∀ k, ramInsn cfg s k = 0 ∧ ramMeta cfg s k = 0 := by
    intro k
    rw [ramInsn, ramMeta, gather_none hnone, gather_none hnone, ite_self]
    exact ⟨rfl, rfl⟩
  refine ⟨?_, ?_, ?_⟩
  · show s.rspInsn ||| ramInsn cfg s s.rspWord = _
    rw [hinsn, (hread _).1, word_or_zero]
  · show (if cfg.metadata then s.rspMeta else 0) ||| ramMeta cfg s s.rspWord = _
    rw [hmeta, (hread _).2, word_or_zero]
  · intro hpair
    simp only [response, Bool.and_eq_true, List.any_eq_true] at hpair
    obtain ⟨w, hw, hsel⟩ := hpair.1.2
    rw [hnone w hw] at hsel
    cases hsel

/-- What the registers hold for the fetch in progress. -/
structure Current (cfg : Config) (s : State m) (t : Transport m) (addr : BitVec 32) : Prop where
  refill : s.state = .refillRequest ∨ s.state = .refillWait →
    lineReqLine s = lineOf addr ∧ s.missWord = wordOf addr
  ready : s.rspValid = true → s.rspError = false → s.rspBypass = false →
    ∃ line, t.held (lineOf addr) = some line ∧
      (RamResponse cfg s line (wordOf addr) ∨ LineResponse cfg s line (wordOf addr))

/-- At most one fetch is in progress, and the registers are for the one accepted last. -/
structure ResponseInv (cfg : Config) (s : State m) (t : Transport m) (l : Log m) : Prop where
  order : l.accepted.length = l.ended.length + (owes s).toNat
  alone : s.state ≠ .idle → s.state ≠ .install → s.rspValid = false
  current : owes s = true → ∃ addr, l.accepted.getLast? = some addr ∧ Current cfg s t addr

variable {l : Log m}

theorem cancels_iff : cancels i = false ↔ installOk i = true := by
  simp [cancels, installOk, and_assoc]

theorem accept_idle (h : accept s i = true) : owes s = rspTaken s i := by
  obtain ⟨hok, hs, hfree, -⟩ := accept_spec h
  obtain ⟨hr, hk, hi⟩ := installOk_iff.1 hok
  unfold rspFree at hfree
  simp only [owes, rspTaken, fetchRspValid, hs, hr, hk, hi]
  cases hv : s.rspValid <;> simp [hv] at hfree ⊢
  exact hfree

theorem rspTaken_eq (hok : installOk i = true) : rspTaken s i = (s.rspValid && i.fetchRspReady) := by
  obtain ⟨hr, hk, hi⟩ := installOk_iff.1 hok
  simp [rspTaken, fetchRspValid, hr, hk, hi]

theorem owes_of_retracted {b : State m} (hv : b.rspValid = false) (hs : b.state = retracted s i) :
    owes b = false := by
  unfold owes
  rw [hv, hs, retracted]
  split_ifs <;> rfl

/-- **A fetch is in progress** from the edge that accepts it to the one that ends it. -/
theorem owes_step (halone : s.state ≠ .idle → s.state ≠ .install → s.rspValid = false) :
    owes (step cfg s i) =
      (!cancels i && (accept s i || (owes s && !rspTaken s i))) := by
  have hrun : installOk i = true → cancels i = false := cancels_iff.2
  have h := @edge_step cfg m s i
  generalize step cfg s i = s' at h ⊢
  have hacc : ∀ {st : IcState}, s.state = st → st ≠ .idle → accept s i = false := by
    intro st hs hne
    simp [accept, fetchReady, hs, hne]
  cases h with
  | reset h => simp [owes, clear, cancels, h]
  | flash _ h => simp [owes_of_retracted (s := s) (i := i), cancels, h]
  | kill _ _ h => simp [owes_of_retracted (s := s) (i := i), cancels, h]
  | idle hr hs ha =>
    rw [loadResponse_eq, hrun hr, ha, rspTaken_eq hr]
    simp only [owes, defaults, clockRams, hs]
    cases s.rspValid <;> simp
  | misaligned hs ha | hit hs ha | locked hs ha =>
    rw [hrun (accept_spec ha).1, ha]
    simp [owes]
  | missed hs ha =>
    rw [hrun (accept_spec ha).1, ha]
    simp [owes]
  | request hr hs =>
    have hv := halone (by simp [hs]) (by simp [hs])
    rw [hrun hr, hacc hs (by decide), rspTaken_eq hr]
    simp only [owes, defaults, hs, hv]
    split_ifs <;> rfl
  | reply hr hs =>
    have hv := halone (by simp [hs]) (by simp [hs])
    rw [hrun hr, hacc hs (by decide), rspTaken_eq hr]
    simp [owes, takeLine, hs, hv]
  | install hr hs =>
    rw [hrun hr, hacc hs (by decide), rspTaken_eq hr]
    simp only [owes, installLine, defaults, hs]
    cases s.rspValid <;> simp
  | drained hr hs =>
    have hv := halone (by simp [hs]) (by simp [hs])
    rw [hrun hr, hacc hs (by decide), rspTaken_eq hr]
    simp [owes, defaults, hs, hv]
  | wait hr hs =>
    rcases hs with hs | hs
    all_goals
      have hv := halone (by simp [hs]) (by simp [hs])
      rw [hrun hr, hacc hs (by decide), rspTaken_eq hr]
      simp [owes, defaults, clockRams, hs, hv]

theorem alone_step (halone : s.state ≠ .idle → s.state ≠ .install → s.rspValid = false)
    (h1 : (step cfg s i).state ≠ .idle) (h2 : (step cfg s i).state ≠ .install) :
    (step cfg s i).rspValid = false := by
  have h := @edge_step cfg m s i
  generalize step cfg s i = s' at h h1 h2 ⊢
  cases h with
  | reset | flash | kill => rfl
  | idle hr hs =>
    rw [loadResponse_eq] at h1
    exact absurd hs h1
  | misaligned hs | hit hs | locked hs =>
    rw [captured, loadResponse_eq] at h1
    exact absurd hs h1
  | missed hs ha =>
    have hfree := (accept_spec ha).2.2.1
    rw [captured, loadResponse_eq]
    show (s.rspValid && !i.fetchRspReady) = false
    unfold rspFree at hfree
    cases hv : s.rspValid <;> simp [hv] at hfree ⊢
    exact hfree
  | request hr hs =>
    have hv := halone (by simp [hs]) (by simp [hs])
    simp [defaults, hv]
  | reply hr hs =>
    cases he : i.lineRspError <;> simp [takeLine, he] at h1 h2
  | install | drained => exact absurd rfl h1
  | wait hr hs =>
    have hv := halone (by rcases hs with hs | hs <;> simp [hs]) (by rcases hs with hs | hs <;> simp [hs])
    simp [defaults, hv]

/-- A response that waits is not touched, and neither is its line. -/
theorem Current.wait {addr : BitVec 32} {s' : State m} (hd : Drained s i) (hok : installOk i = true)
    (hv : s.rspValid = true) (hready : i.fetchRspReady = false) (hs : ¬ Waiting s)
    (hst : s'.state ≠ .refillRequest ∧ s'.state ≠ .refillWait)
    (hrow : s'.rowRdata = (clockRams cfg s i).rowRdata)
    (heq : (s'.rspError, s'.rspBypass, s'.rspInsn, s'.rspMeta, s'.rspWay, s'.rspWord) =
      (s.rspError, s.rspBypass, s.rspInsn, s.rspMeta, s.rspWay, s.rspWord))
    (h : Current cfg s t addr) : Current cfg s' (t.update cfg s i) addr := by
  obtain ⟨hr, -, hi⟩ := installOk_iff.1 hok
  simp only [Prod.mk.injEq] at heq
  obtain ⟨herr, hby, hinsn, hmeta, hway, hword⟩ := heq
  have hread : s'.rowRdata = s.rowRdata := by
    rw [hrow]
    funext w
    exact if_pos (by simp [dataRe, rspFree, hv, hready])
  have hc : ¬ clears cfg i (cfg.setOf (lineOf addr)) := by
    intro hc
    have hno := (hd hr hc.1).2.1
    rw [hv] at hno
    exact Bool.noConfusion hno
  refine ⟨fun hw => absurd hw (by simp [hst]), fun _ he hb => ?_⟩
  rw [herr] at he
  rw [hby] at hb
  obtain ⟨line, hheld, hresp⟩ := h.ready hv he hb
  refine ⟨line, ?_, ?_⟩
  · rw [held_update hr hi hc (fun hno => hs (lineTaken_spec hno.1).2), hheld]
  · rcases hresp with hresp | hresp
    · refine .inl ⟨hinsn.trans hresp.insn, hmeta.trans hresp.metadata, hword.trans hresp.index, ?_⟩
      rw [hway, hread]
      exact hresp.way
    · refine .inr ⟨hinsn.trans hresp.insn, hmeta.trans hresp.metadata, ?_⟩
      rw [hway]
      exact hresp.way

/-- **A fetch that hits** reads its word from the way it hits. -/
theorem current_hit (hd : Drained s i) (h : LinesInv cfg s t) (ha : accept s i = true)
    (hh : lookupHit cfg s i = true) {s' : State m}
    (hst : s'.state ≠ .refillRequest ∧ s'.state ≠ .refillWait)
    (hrow : s'.rowRdata = (clockRams cfg s i).rowRdata)
    (heq : (s'.rspInsn, s'.rspMeta, s'.rspWay, s'.rspWord) =
      (0, 0, lookupHitWay cfg s i, wordOf i.fetchAddr % 4)) :
    Current cfg s' (t.update cfg s i) i.fetchAddr := by
  obtain ⟨hok, hs, hfree, -⟩ := accept_spec ha
  obtain ⟨hr, -, hi⟩ := installOk_iff.1 hok
  simp only [Prod.mk.injEq] at heq
  obtain ⟨hinsn, hmeta, hway, hword⟩ := heq
  obtain ⟨hlt, hhit, huniq⟩ := lookup_way h hh
  obtain ⟨hvalid, htag⟩ := Bool.and_eq_true_iff.1 hhit
  have hhalf : ¬ HalfWritten s (lookupSet cfg i) (lookupWay cfg s i) :=
    fun hno => IcState.noConfusion (hs.symm.trans hno.1)
  obtain ⟨line, hheld, hholds⟩ := h.whole (lookupSet cfg i) (setOf_lt _) _ hlt hvalid hhalf
  rw [beq_iff_eq.1 htag, lookupSet, lookupTag, lineAt_setOf] at hheld
  have hc : ¬ clears cfg i (cfg.setOf (lineOf i.fetchAddr)) := by
    intro hc
    have hno := (hd hr hc.1).2.2
    rw [ha] at hno
    exact Bool.noConfusion hno
  refine ⟨fun hw => absurd hw (by simp [hst]), fun _ _ _ => ⟨line, ?_, .inl ?_⟩⟩
  · rw [held_update hr hi hc, hheld]
    intro hno
    rcases (lineTaken_spec hno.1).2 with hw | hw <;> simp [hs] at hw
  · refine ⟨hinsn, hmeta, hword, _, hlt, hway ▸ hhit, ?_, fun v hv hsel => huniq v hv (hway ▸ hsel)⟩
    have hhalf : wordOf i.fetchAddr / 4 < 2 := by
      unfold wordOf
      omega
    rw [hrow, ← hholds _ hhalf]
    show (if _ then _ else if _ then _ else _) = _
    have hwe : dataWe s i (lookupWay cfg s i) = false := by simp [dataWe, hs]
    rw [if_neg (by simp [dataRe, hfree]), hwe, if_neg (fun hno => Bool.false_ne_true hno.1)]

/-- **A refill** answers with the word the transport delivers. -/
theorem current_reply (hd : Drained s i) (h : LinesInv cfg s t) {addr : BitVec 32}
    (hok : installOk i = true) (hs : s.state = .refillWait) (ht : lineTaken s i = true)
    (hcur : Current cfg s t addr) :
    Current cfg (takeLine s i (defaults cfg s i)) (t.update cfg s i) addr := by
  obtain ⟨hr, -, hi⟩ := installOk_iff.1 hok
  obtain ⟨hline, hword⟩ := hcur.refill (.inr hs)
  have hst : (takeLine s i (defaults cfg s i)).state ≠ .refillRequest ∧
      (takeLine s i (defaults cfg s i)).state ≠ .refillWait := by
    cases he : i.lineRspError <;> simp [takeLine, he]
  refine ⟨fun hw => absurd hw (by simp [hst]), fun _ he _ => ⟨i.lineRsp, ?_, .inr ?_⟩⟩
  · have he' : i.lineRspError = false := he
    have hc : ¬ clears cfg i (cfg.setOf (lineOf addr)) := not_clears hd hr (by simp [hs]) _
    show (if _ then _ else if _ then _ else if _ then _ else _) = _
    rw [if_neg (by simp [hr, hi]), if_neg (show ¬ (_ ∧ _) from hc),
      if_pos (by simp [ht, he', h.wanted hs, hline])]
  · have he' : i.lineRspError = false := he
    refine ⟨?_, ?_, fun _ _ => rfl⟩
    · simp [takeLine, he', hword]
    · simp [takeLine, he', hword]

theorem log_order (horder : l.accepted.length = l.ended.length + (owes s).toNat)
    (halone : s.state ≠ .idle → s.state ≠ .install → s.rspValid = false) :
    (l.update cfg s i).accepted.length =
      (l.update cfg s i).ended.length + (owes (step cfg s i)).toNat := by
  rw [owes_step halone]
  simp only [Log.update, List.length_append]
  cases hcan : cancels i with
  | true =>
    have ha : accept s i = false := by
      by_contra ha
      have hok := (accept_spec (by simpa using ha)).1
      rw [cancels_iff.2 hok] at hcan
      exact Bool.noConfusion hcan
    rw [ha, if_pos rfl, List.length_replicate, if_neg Bool.false_ne_true]
    simp
    omega
  | false =>
    rw [if_neg Bool.false_ne_true]
    cases ha : accept s i with
    | true =>
      have howes := accept_idle ha
      rw [howes] at horder
      cases ht : rspTaken s i <;> simp [ht] at horder ⊢ <;> omega
    | false =>
      have howes : rspTaken s i = true → owes s = true := by
        intro ht
        rw [rspTaken_eq (cancels_iff.1 hcan), Bool.and_eq_true] at ht
        simp [owes, ht.1]
      cases ht : rspTaken s i with
      | true =>
        rw [howes ht] at horder
        simp [howes ht, horder]
      | false => simp [horder]

theorem responseInv_step (hd : Drained s i) (hl : LinesInv cfg s t) (h : ResponseInv cfg s t l) :
    ResponseInv cfg (step cfg s i) (t.update cfg s i) (l.update cfg s i) := by
  refine ⟨log_order h.order h.alone, alone_step h.alone, fun hnext => ?_⟩
  have howes := hnext
  rw [owes_step h.alone, Bool.and_eq_true, Bool.or_eq_true, Bool.and_eq_true, Bool.not_eq_true',
    Bool.not_eq_true'] at howes
  obtain ⟨hcan, hfrom⟩ := howes
  have hrun := cancels_iff.1 hcan
  obtain ⟨hr, hk, hi⟩ := installOk_iff.1 hrun
  -- the fetch in progress stays the last one accepted
  have hlast : accept s i = false → (l.update cfg s i).accepted.getLast? = l.accepted.getLast? := by
    intro ha
    simp [Log.update, ha]
  have hnew : accept s i = true → (l.update cfg s i).accepted.getLast? = some i.fetchAddr := by
    intro ha
    simp [Log.update, ha]
  have hstay : accept s i = false → owes s = true ∧ rspTaken s i = false :=
    fun ha => hfrom.resolve_left (by simp [ha])
  have hwaits : accept s i = false → s.rspValid = true → i.fetchRspReady = false := by
    intro ha hv
    have ht := (hstay ha).2
    rwa [rspTaken_eq hrun, hv, Bool.true_and] at ht
  have hacc : ∀ {st : IcState}, s.state = st → st ≠ .idle → accept s i = false := by
    intro st hs hne
    simp [accept, fetchReady, hs, hne]
  have he := @edge_step cfg m s i
  have hrow : (step cfg s i).rowRdata = (clockRams cfg s i).rowRdata := funext step_rowRdata
  have halone := @alone_step cfg m s i h.alone
  generalize step cfg s i = s' at he hnext hrow halone ⊢
  cases he with
  | reset h => simp [hr] at h
  | flash _ h => simp [hi] at h
  | kill _ _ h => simp [hk] at h
  | idle _ hs ha =>
    obtain ⟨addr, hlog, hcur⟩ := h.current (hstay ha).1
    have hv : s.rspValid = true := by simpa [owes, hs] using (hstay ha).1
    have hready := hwaits ha hv
    have hfree : rspFree s i = false := by simp [rspFree, hv, hready]
    refine ⟨addr, (hlast ha).trans hlog, hcur.wait hd hrun hv hready ?_ ?_ hrow ?_⟩
    · rintro (hw | hw) <;> simp [hs] at hw
    · rw [loadResponse_eq]
      simp [defaults, clockRams, hs]
    · rw [loadResponse_eq, hfree]
      rfl
  | misaligned hs ha =>
    refine ⟨_, hnew ha, fun hw => ?_, fun _ he => Bool.noConfusion he⟩
    rw [captured, loadResponse_eq] at hw
    simp [captureMiss, defaults, clockRams, hs] at hw
  | hit hs ha hal hh =>
    have hfree := (accept_spec ha).2.2.1
    refine ⟨_, hnew ha, current_hit hd hl ha hh ?_ hrow ?_⟩
    · rw [captured, loadResponse_eq]
      simp [captureMiss, defaults, clockRams, hs]
    · rw [captured, loadResponse_eq, hfree, hal]
      rfl
  | locked hs ha =>
    refine ⟨_, hnew ha, fun hw => ?_, fun _ _ hb => Bool.noConfusion hb⟩
    rw [captured, loadResponse_eq] at hw
    simp [captureMiss, defaults, clockRams, hs] at hw
  | missed hs ha =>
    have hv := halone IcState.noConfusion IcState.noConfusion
    refine ⟨_, hnew ha, fun _ => ⟨?_, rfl⟩, fun hvalid => by cases hv.symm.trans hvalid⟩
    show i.fetchAddr.toNat / 8 / 4 = lineOf i.fetchAddr
    rw [lineOf, Nat.div_div_eq_div_mul]
  | request _ hs =>
    have ha := hacc hs (by decide)
    obtain ⟨addr, hlog, hcur⟩ := h.current (hstay ha).1
    have hv : (s.rspValid && !i.fetchRspReady) = false := by
      rw [h.alone (by simp [hs]) (by simp [hs]), Bool.false_and]
    exact ⟨addr, (hlast ha).trans hlog, fun _ => hcur.refill (.inl hs),
      fun hvalid => by cases hv.symm.trans hvalid⟩
  | reply _ hs ht =>
    have ha := hacc hs (by decide)
    obtain ⟨addr, hlog, hcur⟩ := h.current (hstay ha).1
    exact ⟨addr, (hlast ha).trans hlog, current_reply hd hl hrun hs ht hcur⟩
  | install _ hs =>
    have ha := hacc hs (by decide)
    obtain ⟨addr, hlog, hcur⟩ := h.current (hstay ha).1
    have hv : s.rspValid = true := by simpa [owes, hs] using (hstay ha).1
    refine ⟨addr, (hlast ha).trans hlog, hcur.wait hd hrun hv (hwaits ha hv) ?_ ?_ hrow rfl⟩
    · rintro (hw | hw) <;> simp [hs] at hw
    · exact ⟨IcState.noConfusion, IcState.noConfusion⟩
  | drained _ hs =>
    have hno := (hstay (hacc hs (by decide))).1
    simp [owes, hs, h.alone] at hno
  | wait _ hs =>
    have ha : accept s i = false := by rcases hs with hs | hs <;> exact hacc hs (by decide)
    obtain ⟨addr, hlog, hcur⟩ := h.current (hstay ha).1
    have hvs : s.rspValid = false := by rcases hs with hs | hs <;> exact h.alone (by simp [hs]) (by simp [hs])
    have hv : (s.rspValid && !i.fetchRspReady) = false := by rw [hvs, Bool.false_and]
    exact ⟨addr, (hlast ha).trans hlog, hcur.refill,
      fun hvalid => by cases hv.symm.trans hvalid⟩

/-! ## Moving -/

theorem rspValid_step (halone : s.state ≠ .idle → s.state ≠ .install → s.rspValid = false)
    (hok : installOk i = true) (hv : s.rspValid = true) (ht : rspTaken s i = false) :
    (step cfg s i).rspValid = true := by
  have howes := @owes_step cfg m s i halone
  rw [cancels_iff.2 hok, ht] at howes
  have hready : i.fetchRspReady = false := by rwa [rspTaken_eq hok, hv, Bool.true_and] at ht
  have hkeep : (defaults cfg s i).rspValid = true := by simp [defaults, hv, hready]
  obtain ⟨hr, hk, hi⟩ := installOk_iff.1 hok
  have hno : accept s i = false := by simp [accept, fetchReady, rspFree, hv, hready]
  have h := @edge_step cfg m s i
  generalize step cfg s i = s' at h ⊢
  cases h with
  | reset h => simp [hr] at h
  | flash _ h => simp [hi] at h
  | kill _ _ h => simp [hk] at h
  | idle =>
    rw [loadResponse_eq]
    exact hkeep
  | misaligned _ ha | hit _ ha | locked _ ha | missed _ ha => simp [hno] at ha
  | request | install | drained | wait => exact hkeep
  | reply => rfl

theorem request_moves (hok : installOk i = true) (hs : s.state = .refillRequest) :
    (step cfg s i).state = if i.lineReqReady then .refillWait else .refillRequest := by
  obtain ⟨hr, hk, hi⟩ := installOk_iff.1 hok
  simp [step, hr, hk, hi, hs, lineReqValid]

theorem wait_moves (hok : installOk i = true) (hs : s.state = .refillWait) :
    (i.lineRspValid = true → (step cfg s i).rspValid = true) ∧
      (i.lineRspValid = false → (step cfg s i).state = .refillWait) := by
  obtain ⟨hr, hk, hi⟩ := installOk_iff.1 hok
  constructor <;> intro hv
  · simp [step, hr, hk, hi, hs, lineTaken, lineRspReady, hv, takeLine]
  · simp [step, hr, hk, hi, hs, lineTaken, hv, defaults, clockRams]

end Edge

/-! ## Runs -/

section Run

variable (r : Run (machine cfg))

/-- The record of the line port. -/
def transport : ℕ → Transport cfg.metaBits := r.history Transport.start (Transport.update cfg)

/-- The record of the fetch port. -/
def log : ℕ → Log cfg.metaBits := r.history Log.start (Log.update cfg)

/-- The fetch in progress ends on this edge: it is answered or killed. -/
def Ends (n : ℕ) : Prop :=
  cancels (r.input n) = true ∨ rspTaken (r.state n) (r.input n) = true

/-- Surroundings that take a request, deliver a line and take a response in the end. -/
structure Serves : Prop where
  requests : Recurs fun n => lineReqValid (r.state n) (r.input n) = true →
    (r.input n).lineReqReady = true
  replies : Recurs fun n => Waiting (r.state n) → (r.input n).lineRspValid = true
  taker : Recurs fun n => fetchRspValid (r.state n) (r.input n) = true →
    (r.input n).fetchRspReady = true

variable {r}

theorem inv_run {n : ℕ} (h : r.Obeys Drained n) :
    LinesInv cfg (r.state n) (transport r n) ∧ RankInv cfg (r.state n) ∧
      ResponseInv cfg (r.state n) (transport r n) (log r n) := by
  induction n with
  | zero =>
    refine ⟨linesInv_start r.initial, rankInv_start r.initial, ?_⟩
    obtain ⟨s₀, hs⟩ := r.initial
    show ResponseInv cfg r.start Transport.start Log.start
    rw [hs]
    exact ⟨rfl, fun _ _ => rfl, fun howes => Bool.noConfusion howes⟩
  | succ n ih =>
    have hd := h n (Nat.lt_succ_self n)
    obtain ⟨hl, hr, hresp⟩ := ih (h.mono (Nat.le_succ n))
    exact ⟨linesInv_step hd hl, rankInv_step hd hl hr, responseInv_step hd hl hresp⟩

/-- **Every fetch ends**: it is answered, or a kill, an invalidate or a reset ends it. -/
theorem ends_leadsTo (h : ∀ n, r.Obeys Drained n) (hs : Serves r) :
    LeadsTo (fun n => owes (r.state n) = true) (Ends r) := by
  intro n hn
  by_contra hno
  have halone := fun m => (inv_run (h m)).2.2.alone
  have hok : ∀ m, n ≤ m → installOk (r.input m) = true := fun m hm =>
    cancels_iff.1 (Bool.not_eq_true _ ▸ fun hc => hno ⟨m, hm, .inl hc⟩)
  have hnot : ∀ m, n ≤ m → rspTaken (r.state m) (r.input m) = false := fun m hm =>
    Bool.not_eq_true _ ▸ fun ht => hno ⟨m, hm, .inr ht⟩
  -- a response in the registers would be taken
  have hempty : ∀ m, n ≤ m → (r.state m).rspValid = false := by
    intro m hm
    by_contra hv
    have hstay : ∀ k, m ≤ k → (r.state k).rspValid = true := by
      intro k hk
      induction k, hk using Nat.le_induction with
      | base => simpa using hv
      | succ k hk ih => exact rspValid_step (halone k) (hok k (hm.trans hk)) ih (hnot k (hm.trans hk))
    obtain ⟨k, hk, hready⟩ := hs.taker m
    obtain ⟨hr, hkill, hi⟩ := installOk_iff.1 (hok k (hm.trans hk))
    have hvalid : fetchRspValid (r.state k) (r.input k) = true := by
      simp [fetchRspValid, hr, hkill, hi, hstay k hk]
    have ht := hnot k (hm.trans hk)
    rw [rspTaken, hvalid, hready hvalid] at ht
    exact Bool.noConfusion ht
  have hwait : ∀ m, n ≤ m → (r.state m).state ≠ .refillWait := by
    intro m hm hw
    have hnone : ∀ k, m ≤ k → (r.state k).state = .refillWait → (r.input k).lineRspValid = false := by
      intro k hk hwk
      by_contra hv
      have hfull := (@wait_moves cfg _ _ _ (hok k (hm.trans hk)) hwk).1 (by simpa using hv)
      exact absurd ((hempty (k + 1) (by omega)).symm.trans hfull) Bool.false_ne_true
    have hstay : ∀ k, m ≤ k → (r.state k).state = .refillWait := by
      intro k hk
      induction k, hk using Nat.le_induction with
      | base => exact hw
      | succ k hk ih => exact (wait_moves (hok k (hm.trans hk)) ih).2 (hnone k hk ih)
    obtain ⟨k, hk, hv⟩ := hs.replies m
    exact absurd ((hnone k hk (hstay k hk)).symm.trans (hv (.inl (hstay k hk)))) Bool.false_ne_true
  have howes : ∀ m, n ≤ m → owes (r.state m) = true := by
    intro m hm
    induction m, hm using Nat.le_induction with
    | base => exact hn
    | succ m hm ih =>
      show owes (step cfg (r.state m) (r.input m)) = true
      rw [owes_step (halone m), cancels_iff.2 (hok m hm), ih, hnot m hm]
      simp
  have hrequest : ∀ m, n ≤ m → (r.state m).state = .refillRequest := by
    intro m hm
    have ho := howes m hm
    rw [owes, hempty m hm, Bool.false_or, decide_eq_true_eq] at ho
    exact ho.resolve_right (hwait m hm)
  obtain ⟨m, hm, hready⟩ := hs.requests n
  obtain ⟨hr, hkill, hi⟩ := installOk_iff.1 (hok m hm)
  have hvalid : lineReqValid (r.state m) (r.input m) = true := by
    simp [lineReqValid, hr, hkill, hi, hrequest m hm]
  refine hwait (m + 1) (by omega) ?_
  exact (request_moves (hok m hm) (hrequest m hm)).trans (if_pos (hready hvalid))

theorem log_succ (n : ℕ) : log r (n + 1) = (log r n).update cfg (r.state n) (r.input n) := rfl

/-- A fetch that ended without a response was in progress on an edge that killed it. -/
theorem killed_run {n k : ℕ} (h : (log r n).ended[k]? = some none) :
    ∃ j < n, cancels (r.input j) = true ∧ (log r j).ended.length ≤ k ∧
      k < (log r j).accepted.length := by
  induction n with
  | zero => simp [log, Log.start] at h
  | succ n ih =>
    rw [log_succ] at h
    by_cases hk : k < (log r n).ended.length
    · rw [Log.update, List.getElem?_append_left hk] at h
      obtain ⟨j, hj, hrest⟩ := ih h
      exact ⟨j, Nat.lt_succ_of_lt hj, hrest⟩
    · have hk' := Nat.le_of_not_lt hk
      rw [Log.update, List.getElem?_append_right hk'] at h
      cases hcan : cancels (r.input n) with
      | true =>
        rw [hcan, if_pos rfl] at h
        have hlt := (List.getElem?_eq_some_iff.1 h).1
        rw [List.length_replicate] at hlt
        exact ⟨n, Nat.lt_succ_self n, hcan, hk', by omega⟩
      | false =>
        rw [hcan, if_neg Bool.false_ne_true] at h
        have hmem := List.mem_of_getElem? h
        split_ifs at hmem <;> simp at hmem

theorem ended_length_mono {m n : ℕ} (h : m ≤ n) : (log r m).ended.length ≤ (log r n).ended.length := by
  induction n, h using Nat.le_induction with
  | base => exact le_rfl
  | succ n _ ih =>
    rw [log_succ, Log.update, List.length_append]
    exact Nat.le_add_right_of_le ih

theorem accepted_length_mono {m n : ℕ} (h : m ≤ n) :
    (log r m).accepted.length ≤ (log r n).accepted.length := by
  induction n, h using Nat.le_induction with
  | base => exact le_rfl
  | succ n _ ih =>
    rw [log_succ, Log.update, List.length_append]
    exact Nat.le_add_right_of_le ih

/-- The end of the fetch in progress is put on record. -/
theorem ended_length_ends {n : ℕ} (h : Ends r n)
    (hone : (log r n).accepted.length = (log r n).ended.length + 1) :
    (log r (n + 1)).ended.length = (log r n).ended.length + 1 := by
  rw [log_succ, Log.update, List.length_append, hone, Nat.add_sub_cancel_left]
  cases hcan : cancels (r.input n) with
  | true => rfl
  | false =>
    have ht := h.resolve_left (by simp [hcan])
    rw [if_neg Bool.false_ne_true, if_pos ht]
    rfl

/-- What a run promises: of the responses, of the ways and of the ranks. -/
structure NeverStale (r : Run (machine cfg)) : Prop where
  /-- The fetches end in the order they are accepted in, at most one in progress. -/
  order : ∀ n, (log r n).ended.length ≤ (log r n).accepted.length ∧
    (log r n).accepted.length ≤ (log r n).ended.length + 1
  /-- A response is the end of the fetch in progress, and one that is no error and no bypass
  has the words of the line last delivered for its address. -/
  answered : ∀ n, rspTaken (r.state n) (r.input n) = true →
    (log r (n + 1)).ended = (log r n).ended ++ [some (response cfg (r.state n))] ∧
      ∃ addr, (log r n).accepted[(log r n).ended.length]? = some addr ∧
        ((response cfg (r.state n)).error = false → (response cfg (r.state n)).bypass = false →
          ∃ line, (transport r n).held (lineOf addr) = some line ∧
            Answers cfg line (wordOf addr) (response cfg (r.state n)))
  /-- One that ended without a response was killed while it was in progress. -/
  killed : ∀ n k, (log r n).ended[k]? = some none →
    ∃ j < n, cancels (r.input j) = true ∧ (log r j).ended.length ≤ k ∧
      k < (log r j).accepted.length
  /-- Every fetch ends. -/
  ends : Serves r → ∀ n k, k < (log r n).accepted.length → ∃ m, k < (log r m).ended.length
  /-- No line is in two ways. -/
  unique : ∀ n, ∀ set < cfg.setCount, ∀ v < cfg.wayCount, ∀ w < cfg.wayCount,
    validAt (r.state n) set v = true → validAt (r.state n) set w = true →
      (r.state n).tagRam v set = (r.state n).tagRam w set → v = w
  /-- A valid way holds both halves of the line last delivered for its address, all but the
  way that is being written. -/
  whole : ∀ n, ∀ set < cfg.setCount, ∀ w < cfg.wayCount, validAt (r.state n) set w = true →
    ¬ HalfWritten (r.state n) set w → ∃ line,
      (transport r n).held (lineAt cfg set ((r.state n).tagRam w set)) = some line ∧
        HoldsLine (r.state n) set w line
  /-- A way is being written for one cycle, in which no fetch is accepted. -/
  brief : ∀ n, (r.state n).state = .install →
    accept (r.state n) (r.input n) = false ∧ (r.state (n + 1)).state ≠ .install
  /-- The ranks of a set in use, with the update in its registers, are an order. -/
  ranked : ∀ n, ∀ set < cfg.setCount, (∃ w < cfg.wayCount, validAt (r.state n) set w = true) →
    Ranked (Set.Iio cfg.wayCount) cfg.wayCount (ranks cfg (r.state n) set)
  /-- No update is in its registers when a way is chosen to be overwritten. -/
  settled : ∀ n, (r.state n).state = .refillRequest →
    ranks cfg (r.state n) = (r.state n).lruRam

theorem getElem?_last {α : Type*} {x : List α} {a : α} {k : ℕ} (h : x.getLast? = some a)
    (hk : x.length = k + 1) : x[k]? = some a := by
  rw [List.getLast?_eq_getElem?, hk] at h
  exact h

/-- **The instruction cache never returns a stale or a half-written line**, in any run that
drains it before a set is invalidated. -/
theorem neverStale (r : Run (machine cfg)) (h : ∀ n, Drained (r.state n) (r.input n)) :
    NeverStale r := by
  have hobeys : ∀ n, r.Obeys Drained n := fun n k _ => h k
  have hinv := fun n => inv_run (hobeys n)
  refine ⟨fun n => ?_, fun n ht => ?_, fun n k => killed_run, fun hs n k hk => ?_,
    fun n => (hinv n).1.unique, fun n => (hinv n).1.whole, fun n hs => ⟨?_, fun hs' => ?_⟩,
    fun n => (hinv n).2.1, fun n hs => ?_⟩
  · have horder := (hinv n).2.2.order
    have hle := Bool.toNat_le (owes (r.state n))
    omega
  · have hok : installOk (r.input n) = true := by
      simp only [rspTaken, fetchRspValid, Bool.and_eq_true, Bool.not_eq_true'] at ht
      exact installOk_iff.2 ⟨ht.1.1.1.1, ht.1.1.2, ht.1.2⟩
    have hv : (r.state n).rspValid = true := by
      rw [rspTaken_eq hok, Bool.and_eq_true] at ht
      exact ht.1
    have howes : owes (r.state n) = true := by simp [owes, hv]
    obtain ⟨addr, hlast, hcur⟩ := (hinv n).2.2.current howes
    have horder := (hinv n).2.2.order
    rw [howes] at horder
    refine ⟨?_, addr, getElem?_last hlast horder, fun he hb => ?_⟩
    · rw [log_succ, Log.update, cancels_iff.2 hok, if_neg Bool.false_ne_true, if_pos ht]
    · obtain ⟨line, hheld, hresp | hresp⟩ := hcur.ready hv he hb
      · exact ⟨line, hheld, hresp.answers⟩
      · exact ⟨line, hheld, hresp.answers⟩
  · have horder := (hinv n).2.2.order
    cases howes : owes (r.state n) with
    | false =>
      rw [howes] at horder
      exact ⟨n, by simpa [horder] using hk⟩
    | true =>
      rw [howes] at horder
      obtain ⟨m, hm, hend⟩ := ends_leadsTo hobeys hs n howes
      have hended := ended_length_mono (r := r) hm
      have haccepted := accepted_length_mono (r := r) hm
      have hle := (hinv m).2.2.order
      have hone := Bool.toNat_le (owes (r.state m))
      rw [Bool.toNat_true] at horder
      by_cases hgrown : (log r n).ended.length < (log r m).ended.length
      · exact ⟨m, by omega⟩
      · have hnext := ended_length_ends hend (by omega)
        exact ⟨m + 1, by omega⟩
  · simp [accept, fetchReady, hs]
  · have hw := (install_step hs').2.1
    rw [hs] at hw
    exact IcState.noConfusion hw
  · funext set
    refine if_neg fun hu => ?_
    cases n with
    | zero =>
      obtain ⟨s₀, hs₀⟩ := r.initial
      have hidle : (r.state 0).state = .idle := congrArg State.state hs₀
      rw [hs] at hidle
      exact IcState.noConfusion hidle
    | succ n =>
      have hidle := @idle_of_updValid cfg _ _ _ hu.1
      exact IcState.noConfusion (hs.symm.trans hidle)

end Run

/-! ## A first fill -/

/-- The 603e's cache, two words wide, with metadata. -/
def wideCache : Config :=
  { setBits := 7, wayBits := 2, fetchPair := true, metadata := true, metaBits := 2 }

/-- No register set and every array zero. -/
def blank : State wideCache.metaBits :=
  clear
    { state := .idle, setValid := fun _ => false, wayValidRam := fun _ _ => false
      tagRam := fun _ _ => 0, dataRam := fun _ _ _ _ => default, rowRdata := fun _ _ => default
      lruRam := fun _ _ => 0, rspValid := false, rspError := false, rspBypass := false
      rspInsn := 0, rspMeta := 0, rspWay := fun _ => false, rspWord := 0
      missAddr := 0, missSet := 0, missTag := 0, missWord := 0, victimWay := 0
      missValid := fun _ => false, lineHalf1 := fun _ => default
      invalidateDone := false, hit := false, miss := false, protocolError := false
      updValid := false, updSeed := false, updSet := 0, updWay := 0 }

/-- One fetch of address zero, with the transport and the taker ready at once. -/
def fillInput (n : ℕ) : Input wideCache.metaBits where
  rstN := true
  fetchValid := n == 0
  fetchAddr := 0
  fetchRspReady := true
  lock := false
  kill := false
  invalidate := false
  invalidateSet := false
  invalidateSetAddr := 0
  lineReqReady := true
  lineRspValid := n == 2
  lineRsp := fun k => ⟨BitVec.ofNat 32 k, 0⟩
  lineRspError := false
  collision := fun _ _ => default

/-- The first fill. -/
def fillRun : Run (machine wideCache) where
  start := blank
  initial := ⟨_, rfl⟩
  input := fillInput

theorem fillRun_drained (n : ℕ) : Drained (fillRun.state n) (fillRun.input n) :=
  fun _ hset => Bool.noConfusion hset

theorem neverStale_fillRun : rspTaken (fillRun.state 3) (fillRun.input 3) = true ∧
    validAt (fillRun.state 4) 0 0 = true ∧ NeverStale fillRun :=
  ⟨by decide, by decide, neverStale fillRun fillRun_drained⟩

/-- For the one cycle after the first install of a set the ranks in its RAM are what they
were, which need be no order. -/
theorem lruRam_after_first_install : ¬ ∀ (cfg : Config) (r : Run (machine cfg)),
    (∀ n, Drained (r.state n) (r.input n)) → ∀ n, ∀ set < cfg.setCount,
      (∃ w < cfg.wayCount, validAt (r.state n) set w = true) →
        Ranked (Set.Iio cfg.wayCount) cfg.wayCount ((r.state n).lruRam set) := by
  intro h
  have hvalid : validAt (fillRun.state 4) 0 0 = true := by decide
  have hranked := h wideCache fillRun fillRun_drained 4 0 (by decide) ⟨0, by decide, hvalid⟩
  have hsame : (fillRun.state 4).lruRam 0 0 = (fillRun.state 4).lruRam 0 1 := by decide
  have hzero := hranked.injOn (Set.mem_Iio.2 (by decide)) (Set.mem_Iio.2 (by decide)) hsame
  exact absurd hzero (by decide)

end Icache
end SloPPC603
