import SloPPC603.Clocked.Recency
import SloPPC603.Icache.Model

/-!
# What the ways hold

* `Transport` — the line last asked for, and the lines delivered since they were last
  invalidated, as the ports show them.
* `step_rams`, `step_state`, `step_miss` and the rest — what one edge does to each part.
* `LinesInv` — no line is in two ways, each valid way holds the whole of a delivered line,
  and the ranks of a set in use are an order.
* `linesInv_step`, `linesInv_run` — it is kept.
-/

namespace SloPPC603
namespace Icache

open Words Clocked

variable {cfg : Config}

/-! ## What one edge does -/

section Edge

variable {m : ℕ} {s : State m} {i : Input m}

/-- The registers of an accepted fetch before the tags are known. -/
def captured (cfg : Config) (s : State m) (i : Input m) : State m :=
  captureMiss cfg s i (loadResponse cfg s i (defaults cfg s i))

/-- What an edge can do, with the conditions under which it does it. -/
inductive Edge (cfg : Config) (s : State m) (i : Input m) : State m → Prop
  | reset (h : i.rstN = false) : Edge cfg s i (clear (clockRams cfg s i))
  | flash (hr : i.rstN = true) (h : i.invalidate = true) : Edge cfg s i
      { defaults cfg s i with
        setValid := fun _ => false, rspValid := false, invalidateDone := true
        state := retracted s i }
  | kill (hr : i.rstN = true) (hi : i.invalidate = false) (h : i.kill = true) : Edge cfg s i
      { defaults cfg s i with rspValid := false, state := retracted s i }
  | idle (hr : installOk i = true) (hs : s.state = .idle) (ha : accept s i = false) :
      Edge cfg s i (loadResponse cfg s i (defaults cfg s i))
  | misaligned (hs : s.state = .idle) (ha : accept s i = true) (h : aligned i = false) :
      Edge cfg s i { captured cfg s i with rspError := true, rspValid := true, protocolError := true }
  | hit (hs : s.state = .idle) (ha : accept s i = true) (h : aligned i = true)
      (hh : lookupHit cfg s i = true) : Edge cfg s i
      { captured cfg s i with
        rspError := false, rspValid := true, hit := true
        updValid := true, updSeed := false, updSet := lookupSet cfg i, updWay := lookupWay cfg s i }
  | locked (hs : s.state = .idle) (ha : accept s i = true) (h : aligned i = true)
      (hh : lookupHit cfg s i = false) (hl : i.lock = true) : Edge cfg s i
      { captured cfg s i with rspError := false, rspBypass := true, rspValid := true, miss := true }
  | missed (hs : s.state = .idle) (ha : accept s i = true) (h : aligned i = true)
      (hh : lookupHit cfg s i = false) (hl : i.lock = false) :
      Edge cfg s i { captured cfg s i with miss := true, state := .refillRequest }
  | request (hr : installOk i = true) (hs : s.state = .refillRequest) : Edge cfg s i
      { defaults cfg s i with
        victimWay := victimWay cfg s
        state := if lineReqValid s i && i.lineReqReady then .refillWait else .refillRequest }
  | reply (hr : installOk i = true) (hs : s.state = .refillWait) (ht : lineTaken s i = true) :
      Edge cfg s i (takeLine s i (defaults cfg s i))
  | install (hr : installOk i = true) (hs : s.state = .install) :
      Edge cfg s i (installLine cfg s (defaults cfg s i))
  | drained (hr : installOk i = true) (hs : s.state = .refillDrain) (ht : lineTaken s i = true) :
      Edge cfg s i { defaults cfg s i with state := .idle }
  | wait (hr : installOk i = true) (hs : s.state = .refillWait ∨ s.state = .refillDrain)
      (ht : lineTaken s i = false) : Edge cfg s i (defaults cfg s i)

theorem edge_step : Edge cfg s i (step cfg s i) := by
  unfold step
  cases hr : i.rstN with
  | false => exact .reset hr
  | true =>
  cases hi : i.invalidate with
  | true => exact .flash hr hi
  | false =>
  cases hk : i.kill with
  | true => exact .kill hr hi hk
  | false =>
  have hrun : installOk i = true := by simp [installOk, hr, hi, hk]
  simp only [Bool.not_true, if_neg Bool.false_ne_true]
  cases hs : s.state with
  | idle =>
    cases ha : accept s i with
    | false => exact .idle hrun hs ha
    | true =>
      simp only [if_true]
      unfold acceptFetch
      cases h : aligned i with
      | false => exact .misaligned hs ha h
      | true =>
      cases hh : lookupHit cfg s i with
      | true => exact .hit hs ha h hh
      | false =>
      cases hl : i.lock with
      | true => exact .locked hs ha h hh hl
      | false => exact .missed hs ha h hh hl
  | refillRequest => exact .request hrun hs
  | refillWait =>
    cases ht : lineTaken s i with
    | true => exact .reply hrun hs ht
    | false => exact .wait hrun (.inl hs) ht
  | install => exact .install hrun hs
  | refillDrain =>
    cases ht : lineTaken s i with
    | true => exact .drained hrun hs ht
    | false => exact .wait hrun (.inr hs) ht

/-- The RAM arrays and the registers beside them. -/
def rams (s : State m) :=
  (s.wayValidRam, s.tagRam, s.dataRam, s.rowRdata, s.lruRam, s.lineHalf1)

theorem rams_loadResponse (b : State m) : rams (loadResponse cfg s i b) = rams b := by
  unfold loadResponse
  split_ifs <;> rfl

theorem step_rams : rams (step cfg s i) = rams (clockRams cfg s i) := by
  have hload : rams (loadResponse cfg s i (defaults cfg s i)) = rams (clockRams cfg s i) :=
    rams_loadResponse _
  have h := @edge_step cfg m s i
  generalize step cfg s i = s' at h ⊢
  cases h with
  | reset | flash | kill | request | reply | install | drained | wait => rfl
  | idle | misaligned | hit | locked | missed => exact hload

theorem step_wayValidRam (set w : ℕ) : (step cfg s i).wayValidRam set w =
    if wayValidWe s i ∧ set = s.missSet then wayValidWdata s i w else s.wayValidRam set w :=
  congrFun (congrFun (congrArg Prod.fst (@step_rams cfg m s i)) set) w

theorem step_tagRam (w set : ℕ) : (step cfg s i).tagRam w set =
    if tagWe s i w ∧ set = s.missSet then s.missTag else s.tagRam w set :=
  congrFun (congrFun (congrArg (·.2.1) (@step_rams cfg m s i)) w) set

theorem step_dataRam (w set half : ℕ) : (step cfg s i).dataRam w set half =
    if dataWe s i w ∧ set = s.missSet ∧ half = dataHalf s then rowWdata s i
    else s.dataRam w set half :=
  congrFun (congrFun (congrFun (congrArg (·.2.2.1) (@step_rams cfg m s i)) w) set) half

theorem step_rowRdata (w : ℕ) : (step cfg s i).rowRdata w = (clockRams cfg s i).rowRdata w :=
  congrFun (congrArg (·.2.2.2.1) (@step_rams cfg m s i)) w

theorem step_lruRam (set : ℕ) : (step cfg s i).lruRam set =
    if s.updValid ∧ set = s.updSet then lruWdata cfg s else s.lruRam set :=
  congrFun (congrArg (·.2.2.2.2.1) (@step_rams cfg m s i)) set

theorem step_lineHalf1 : (step cfg s i).lineHalf1 =
    if s.state = .refillWait ∧ i.lineRspValid then i.lineRsp.half 1 else s.lineHalf1 :=
  congrArg (·.2.2.2.2.2) (@step_rams cfg m s i)

/-- A way holds a line of its set. -/
def validAt (s : State m) (set w : ℕ) : Bool := s.setValid set && s.wayValidRam set w

theorem loadResponse_eq (b : State m) : loadResponse cfg s i b =
    { b with
      rspWay := if rspFree s i then if aligned i then lookupHitWay cfg s i else fun _ => false
        else b.rspWay
      rspWord := if rspFree s i then wordOf i.fetchAddr % 4 else b.rspWord
      rspInsn := if rspFree s i then 0 else b.rspInsn
      rspMeta := if rspFree s i then 0 else b.rspMeta } := by
  unfold loadResponse
  cases rspFree s i <;> rfl

/-- A set invalidate clears the set on this edge. -/
def clears (cfg : Config) (i : Input m) (set : ℕ) : Prop :=
  i.invalidateSet = true ∧ set = cfg.setOf (lineOf i.invalidateSetAddr)

/-- The tag is published on this edge. -/
def Publishes (s : State m) (i : Input m) : Prop := installOk i = true ∧ s.state = .install

theorem installOk_iff : installOk i = true ↔ i.rstN = true ∧ i.kill = false ∧ i.invalidate = false := by
  simp [installOk, and_assoc]

theorem accept_spec (h : accept s i = true) : installOk i = true ∧ s.state = .idle ∧
    rspFree s i = true ∧ i.fetchValid = true := by
  simp only [accept, fetchReady, Bool.and_eq_true, Bool.not_eq_true', beq_iff_eq] at h
  obtain ⟨hv, ⟨⟨⟨hr, hs⟩, hf⟩, hk⟩, hi⟩ := h
  exact ⟨installOk_iff.2 ⟨hr, hk, hi⟩, hs, hf, hv⟩

theorem step_setValid (set : ℕ) (h : (step cfg s i).setValid set = true) :
    i.rstN = true ∧ i.invalidate = false ∧
      ((Publishes s i ∧ set = s.missSet) ∨ (s.setValid set = true ∧ ¬ clears cfg i set)) := by
  have hkeep : (defaults cfg s i).setValid set = true →
      s.setValid set = true ∧ ¬ clears cfg i set := by
    intro hd
    by_cases hc : clears cfg i set
    · exact nomatch ((if_pos hc).symm.trans hd)
    · exact ⟨(if_neg hc).symm.trans hd, hc⟩
  have he := @edge_step cfg m s i
  generalize step cfg s i = s' at h he
  cases he with
  | reset | flash => cases h
  | kill hr hi => exact ⟨hr, hi, .inr (hkeep h)⟩
  | request hr | drained hr | wait hr =>
    obtain ⟨hr, -, hi⟩ := installOk_iff.1 hr
    exact ⟨hr, hi, .inr (hkeep h)⟩
  | idle hr =>
    obtain ⟨hr, -, hi⟩ := installOk_iff.1 hr
    rw [loadResponse_eq] at h
    exact ⟨hr, hi, .inr (hkeep h)⟩
  | misaligned hs ha | hit hs ha | locked hs ha | missed hs ha =>
    obtain ⟨hr, -, hi⟩ := installOk_iff.1 (accept_spec ha).1
    rw [captured, loadResponse_eq] at h
    exact ⟨hr, hi, .inr (hkeep h)⟩
  | reply hr =>
    obtain ⟨hr, -, hi⟩ := installOk_iff.1 hr
    exact ⟨hr, hi, .inr (hkeep h)⟩
  | install hok hs =>
    obtain ⟨hr, -, hi⟩ := installOk_iff.1 hok
    by_cases hset : set = s.missSet
    · exact ⟨hr, hi, .inl ⟨⟨hok, hs⟩, hset⟩⟩
    · exact ⟨hr, hi, .inr (hkeep ((if_neg hset).symm.trans h))⟩

/-- A way that is valid after an edge is the one it publishes, or was valid before and is
not cleared or taken back. -/
theorem validAt_of_step (hd : Drained s i)
    (hcap : s.state = .install → ∀ w < cfg.wayCount, s.missValid w = validAt s s.missSet w)
    {set w : ℕ} (hw : w < cfg.wayCount) (h : validAt (step cfg s i) set w = true) :
    i.rstN = true ∧ i.invalidate = false ∧
      ((Publishes s i ∧ set = s.missSet ∧ w = s.victimWay) ∨
        (validAt s set w = true ∧ ¬ clears cfg i set ∧
          ¬ (s.state = .install ∧ set = s.missSet ∧ w = s.victimWay))) := by
  obtain ⟨hset, hway⟩ := Bool.and_eq_true_iff.1 h
  obtain ⟨hr, hi, hset⟩ := step_setValid set hset
  refine ⟨hr, hi, ?_⟩
  rw [step_wayValidRam] at hway
  have hnoclear : s.state = .install → ¬ clears cfg i set := by
    intro hs hc
    have hidle := (hd hr hc.1).1
    rw [hs] at hidle
    cases hidle
  by_cases hs : s.state = .install
  · by_cases hin : set = s.missSet
    · subst hin
      have hcapw := hcap hs w hw
      cases hk : i.kill with
      | false =>
        have hok : installOk i = true := installOk_iff.2 ⟨hr, hk, hi⟩
        have hwe : wayValidWe s i = true := by simp [wayValidWe, hok, hs]
        have habort : abortInstall s i = false := by simp [abortInstall, hk]
        rw [if_pos ⟨hwe, rfl⟩, wayValidWdata, habort, if_neg Bool.false_ne_true] at hway
        by_cases hv : w = s.victimWay
        · exact .inl ⟨⟨hok, hs⟩, rfl, hv⟩
        · have hne : (s.victimWay == w) = false := beq_false_of_ne (Ne.symm hv)
          rw [hne, Bool.or_false, hcapw] at hway
          exact .inr ⟨hway, hnoclear hs, fun hno => hv hno.2.2⟩
      | true =>
        -- a kill in the cycle of the install takes the victim's bit back
        have habort : abortInstall s i = true := by simp [abortInstall, hr, hi, hk, hs]
        have hwe : wayValidWe s i = true := by simp [wayValidWe, habort]
        rw [if_pos ⟨hwe, rfl⟩, wayValidWdata, habort, if_pos rfl, Bool.and_eq_true, hcapw] at hway
        refine .inr ⟨hway.1, hnoclear hs, fun hno => ?_⟩
        rw [hno.2.2] at hway
        simp at hway
    · rw [if_neg (fun hno => hin hno.2)] at hway
      rcases hset with ⟨-, hset⟩ | ⟨hset, hc⟩
      · exact absurd hset hin
      · exact .inr ⟨Bool.and_eq_true_iff.2 ⟨hset, hway⟩, hc, fun hno => hin hno.2.1⟩
  · have hwe : wayValidWe s i = false := by simp [wayValidWe, abortInstall, hs]
    rw [hwe, if_neg (fun hno => Bool.false_ne_true hno.1)] at hway
    rcases hset with ⟨hpub, -⟩ | ⟨hset, hc⟩
    · exact absurd hpub.2 hs
    · exact .inr ⟨Bool.and_eq_true_iff.2 ⟨hset, hway⟩, hc, fun hno => hs hno.1⟩

/-- A refill is in progress that may yet be installed. -/
def Refilling (s : State m) : Prop :=
  s.state = .refillRequest ∨ s.state = .refillWait ∨ s.state = .install

/-- The registers of a miss. -/
def missOf (s : State m) := (s.missAddr, s.missSet, s.missTag, s.missWord, s.missValid)

theorem retracted_not_refilling {b : State m} (h : b.state = retracted s i) : ¬ Refilling b := by
  unfold Refilling
  rw [h, retracted]
  split_ifs <;> simp

/-- A refill goes on from a missed fetch or from the state before it, and no set is
cleared on that edge. -/
theorem refilling_step (hd : Drained s i) (h : Refilling (step cfg s i)) :
    installOk i = true ∧ s.state ≠ .install ∧ (∀ set, ¬ clears cfg i set) ∧
      (∀ set, (step cfg s i).setValid set = s.setValid set) ∧
      ((s.state = .idle ∧ accept s i = true ∧ lookupHit cfg s i = false ∧
          (step cfg s i).state = .refillRequest ∧
          missOf (step cfg s i) = (i.fetchAddr.toNat / 8, lookupSet cfg i, lookupTag cfg i,
            wordOf i.fetchAddr, lookupValid cfg s i)) ∨
        (Refilling s ∧ missOf (step cfg s i) = missOf s)) := by
  have hkeep : (∀ set, ¬ clears cfg i set) → ∀ set, (defaults cfg s i).setValid set = s.setValid set :=
    fun hc set => if_neg (hc set)
  have hclear : installOk i = true → (s.state = .idle → accept s i = true) →
      ∀ set, ¬ clears cfg i set := by
    intro hok hacc set hc
    obtain ⟨hidle, -, hno⟩ := hd (installOk_iff.1 hok).1 hc.1
    rw [hacc hidle] at hno
    exact Bool.noConfusion hno
  have he := @edge_step cfg m s i
  generalize step cfg s i = s' at h he ⊢
  cases he with
  | reset | drained => simp [Refilling, clear] at h
  | flash | kill => exact absurd h (retracted_not_refilling rfl)
  | idle hr hs =>
    rw [loadResponse_eq] at h
    simp [Refilling, defaults, clockRams, hs] at h
  | misaligned hs | hit hs | locked hs =>
    rw [captured, loadResponse_eq] at h
    simp [Refilling, captureMiss, defaults, clockRams, hs] at h
  | missed hs ha _ hh =>
    have hok := (accept_spec ha).1
    have hc := hclear hok fun _ => ha
    rw [captured, loadResponse_eq]
    exact ⟨hok, by simp [hs], hc, hkeep hc, .inl ⟨hs, ha, hh, rfl, rfl⟩⟩
  | request hr hs =>
    have hc := hclear hr fun hidle => by simp [hs] at hidle
    exact ⟨hr, by simp [hs], hc, hkeep hc, .inr ⟨.inl hs, rfl⟩⟩
  | reply hr hs =>
    have hc := hclear hr fun hidle => by simp [hs] at hidle
    exact ⟨hr, by simp [hs], hc, hkeep hc, .inr ⟨.inr (.inl hs), rfl⟩⟩
  | install => simp [Refilling, installLine] at h
  | wait hr hs =>
    have hne : s.state ≠ .idle ∧ s.state ≠ .install := by
      rcases hs with hs | hs <;> simp [hs]
    have hc := hclear hr fun hidle => absurd hidle hne.1
    exact ⟨hr, hne.2, hc, hkeep hc, .inr ⟨h, rfl⟩⟩

/-- The transport is asked for a line and has not delivered it. -/
def Waiting (s : State m) : Prop := s.state = .refillWait ∨ s.state = .refillDrain

theorem refillWait_step (h : (step cfg s i).state = .refillWait) :
    (s.state = .refillRequest ∧ lineReqValid s i = true ∧ i.lineReqReady = true ∧
        (step cfg s i).victimWay = victimWay cfg s) ∨
      (s.state = .refillWait ∧ lineTaken s i = false ∧
        (step cfg s i).victimWay = s.victimWay) := by
  have he := @edge_step cfg m s i
  generalize step cfg s i = s' at h he ⊢
  cases he with
  | reset | drained => simp [clear] at h
  | flash | kill => exact absurd (.inr (.inl h)) (retracted_not_refilling (s := s) (i := i) rfl)
  | idle hr hs =>
    rw [loadResponse_eq] at h
    simp [defaults, clockRams, hs] at h
  | misaligned hs | hit hs | locked hs | missed hs =>
    rw [captured, loadResponse_eq] at h
    simp [captureMiss, defaults, clockRams, hs] at h
  | request hr hs =>
    by_cases hreq : (lineReqValid s i && i.lineReqReady) = true
    · obtain ⟨hv, hready⟩ := Bool.and_eq_true_iff.1 hreq
      exact .inl ⟨hs, hv, hready, rfl⟩
    · simp [hreq] at h
  | reply hr hs => cases he : i.lineRspError <;> simp [takeLine, he] at h
  | install => simp [installLine] at h
  | wait hr hs ht => exact .inr ⟨h, ht, rfl⟩

theorem install_step (h : (step cfg s i).state = .install) :
    installOk i = true ∧ s.state = .refillWait ∧ lineTaken s i = true ∧ i.lineRspError = false ∧
      (step cfg s i).victimWay = s.victimWay := by
  have he := @edge_step cfg m s i
  generalize step cfg s i = s' at h he ⊢
  cases he with
  | reset | drained => simp [clear] at h
  | flash | kill => exact absurd (.inr (.inr h)) (retracted_not_refilling (s := s) (i := i) rfl)
  | idle hr hs =>
    rw [loadResponse_eq] at h
    simp [defaults, clockRams, hs] at h
  | misaligned hs | hit hs | locked hs | missed hs =>
    rw [captured, loadResponse_eq] at h
    simp [captureMiss, defaults, clockRams, hs] at h
  | request hr hs =>
    dsimp only at h
    split_ifs at h
  | reply hr hs ht =>
    cases he : i.lineRspError with
    | false => exact ⟨hr, hs, ht, rfl, rfl⟩
    | true => simp [takeLine, he] at h
  | install => simp [installLine] at h
  | wait hr hs => rcases hs with hs | hs <;> simp [defaults, clockRams, hs] at h

theorem refillDrain_step (h : (step cfg s i).state = .refillDrain) :
    Waiting s ∧ lineTaken s i = false := by
  have hback : retracted s i = .refillDrain → Waiting s ∧ lineTaken s i = false := by
    intro hback
    unfold retracted at hback
    split_ifs at hback with hw
    exact ⟨hw.1, by simp [lineTaken, hw.2]⟩
  have he := @edge_step cfg m s i
  generalize step cfg s i = s' at h he
  cases he with
  | reset | drained => simp [clear] at h
  | flash | kill => exact hback h
  | idle hr hs =>
    rw [loadResponse_eq] at h
    simp [defaults, clockRams, hs] at h
  | misaligned hs | hit hs | locked hs | missed hs =>
    rw [captured, loadResponse_eq] at h
    simp [captureMiss, defaults, clockRams, hs] at h
  | request hr hs =>
    dsimp only at h
    split_ifs at h
  | reply hr hs ht => cases he : i.lineRspError <;> simp [takeLine, he] at h
  | install => simp [installLine] at h
  | wait hr hs ht => exact ⟨.inr h, ht⟩

end Edge

/-! ## What the transport has delivered -/

/-- The record of the line port. -/
structure Transport (m : ℕ) where
  /-- The line the transport was last asked for. -/
  asked : ℕ
  /-- The line last delivered for each line address since it was last invalidated. -/
  held : ℕ → Option (Line m)

/-- Nothing asked for or delivered. -/
def Transport.start {m : ℕ} : Transport m := ⟨0, fun _ => none⟩

/-- The record after an edge. -/
def Transport.update (cfg : Config) {m : ℕ} (t : Transport m) (s : State m) (i : Input m) :
    Transport m where
  asked := if lineReqValid s i && i.lineReqReady then lineReqLine s else t.asked
  held := fun line =>
    if !i.rstN || i.invalidate then none
    else if i.invalidateSet ∧ cfg.setOf line = cfg.setOf (lineOf i.invalidateSetAddr) then none
    else if lineTaken s i && !i.lineRspError && line == t.asked then some i.lineRsp
    else t.held line

section Invariant

variable {m : ℕ} {s : State m} {i : Input m} {t : Transport m}

/-- The line of a set that a tag names. -/
def lineAt (cfg : Config) (set tag : ℕ) : ℕ := tag * cfg.setCount + set

/-- No way holds a line. -/
def Absent (cfg : Config) (s : State m) (line : ℕ) : Prop :=
  ∀ w < cfg.wayCount, validAt s (cfg.setOf line) w = true →
    s.tagRam w (cfg.setOf line) ≠ cfg.tagOf line

/-- The registers of the refill in progress: its line is in no way. -/
structure Missing (cfg : Config) (s : State m) : Prop where
  set : s.missSet = cfg.setOf (lineReqLine s)
  tag : s.missTag = cfg.tagOf (lineReqLine s)
  captured : ∀ w < cfg.wayCount, s.missValid w = validAt s s.missSet w
  absent : Absent cfg s (lineReqLine s)

/-- The way that is overwritten in halves. -/
def HalfWritten (s : State m) (set w : ℕ) : Prop :=
  s.state = .install ∧ set = s.missSet ∧ w = s.victimWay

/-- A way holds the whole of a line. -/
def HoldsLine (s : State m) (set w : ℕ) (line : Line m) : Prop :=
  ∀ half < 2, s.dataRam w set half = line.half half

/-- What the arrays hold, and the refill in progress. -/
structure LinesInv (cfg : Config) (s : State m) (t : Transport m) : Prop where
  unique : ∀ set < cfg.setCount, ∀ v < cfg.wayCount, ∀ w < cfg.wayCount,
    validAt s set v = true → validAt s set w = true → s.tagRam v set = s.tagRam w set → v = w
  whole : ∀ set < cfg.setCount, ∀ w < cfg.wayCount, validAt s set w = true →
    ¬ HalfWritten s set w →
      ∃ line, t.held (lineAt cfg set (s.tagRam w set)) = some line ∧ HoldsLine s set w line
  missing : Refilling s → Missing cfg s
  asked : Waiting s → Absent cfg s t.asked
  wanted : s.state = .refillWait → t.asked = lineReqLine s
  victim : s.state = .refillWait ∨ s.state = .install → s.victimWay < cfg.wayCount
  halves : s.state = .install → ∃ line, t.held (lineReqLine s) = some line ∧
    s.dataRam s.victimWay s.missSet 0 = line.half 0 ∧ s.lineHalf1 = line.half 1

theorem lineAt_setOf (line : ℕ) : lineAt cfg (cfg.setOf line) (cfg.tagOf line) = line := by
  rw [lineAt, Nat.mul_comm]
  exact Nat.div_add_mod line cfg.setCount

theorem setOf_lineAt {set tag : ℕ} (h : set < cfg.setCount) : cfg.setOf (lineAt cfg set tag) = set := by
  rw [lineAt, Config.setOf, Nat.mul_add_mod_self_right, Nat.mod_eq_of_lt h]

theorem tagOf_lineAt {set tag : ℕ} (h : set < cfg.setCount) : cfg.tagOf (lineAt cfg set tag) = tag := by
  have hpos := Nat.zero_lt_of_lt h
  rw [lineAt, Config.tagOf, Nat.mul_comm, Nat.mul_add_div hpos, Nat.div_eq_of_lt h, Nat.add_zero]

theorem setOf_lt (line : ℕ) : cfg.setOf line < cfg.setCount := Nat.mod_lt _ (Nat.two_pow_pos _)

theorem lookup_absent (h : lookupHit cfg s i = false) : Absent cfg s (lineOf i.fetchAddr) := by
  intro w hw hv htag
  have hno := List.any_eq_false.1 h w (List.mem_range.2 hw)
  exact hno (Bool.and_eq_true_iff.2 ⟨hv, beq_iff_eq.2 htag⟩)

theorem victimWay_lt : victimWay cfg s < cfg.wayCount := by
  have hpos : 0 < cfg.wayCount := Nat.two_pow_pos _
  have hfind : ∀ p : ℕ → Bool, ((ways cfg).find? p).getD 0 < cfg.wayCount := by
    intro p
    cases hf : (ways cfg).find? p with
    | none => exact hpos
    | some w => exact List.mem_range.1 (List.mem_of_find?_eq_some hf)
  unfold victimWay
  split_ifs
  · exact hfind _
  · exact hfind _

/-! ## One edge -/

theorem step_tagRam_of_not {set w : ℕ} (h : ¬ HalfWritten s set w) :
    (step cfg s i).tagRam w set = s.tagRam w set := by
  rw [step_tagRam, if_neg]
  rintro ⟨hwe, hset⟩
  simp only [tagWe, Bool.and_eq_true, beq_iff_eq] at hwe
  exact h ⟨hwe.1.2, hset, hwe.2.symm⟩

theorem absent_step (hd : Drained s i) {line : ℕ} (hs : s.state ≠ .install) (h : Absent cfg s line) :
    Absent cfg (step cfg s i) line := by
  intro w hw hv
  obtain ⟨-, -, ⟨hpub, -⟩ | ⟨hold, -, hnot⟩⟩ :=
    validAt_of_step hd (fun hi => absurd hi hs) hw hv
  · exact absurd hpub.2 hs
  · rw [step_tagRam_of_not hnot]
    exact h w hw hold

theorem missing_step (hd : Drained s i) (h : LinesInv cfg s t) (hs : Refilling (step cfg s i)) :
    Missing cfg (step cfg s i) := by
  obtain ⟨-, hne, -, hset, hfrom⟩ := refilling_step hd hs
  have hvalid : ∀ set w, validAt (step cfg s i) set w = validAt s set w := by
    intro set w
    have hwe : wayValidWe s i = false := by simp [wayValidWe, abortInstall, hne]
    rw [validAt, hset, step_wayValidRam, hwe, if_neg fun hno => Bool.false_ne_true hno.1]
    rfl
  rcases hfrom with ⟨-, -, hmiss, -, heq⟩ | ⟨hold, heq⟩
  · simp only [missOf, Prod.mk.injEq] at heq
    obtain ⟨haddr, hset, htag, -, hval⟩ := heq
    have hline : lineReqLine (step cfg s i) = lineOf i.fetchAddr := by
      rw [lineReqLine, haddr, lineOf, Nat.div_div_eq_div_mul]
    refine ⟨by rw [hset, hline]; rfl, by rw [htag, hline]; rfl, ?_, ?_⟩
    · intro w _
      rw [hval, hset, hvalid]
      rfl
    · rw [hline]
      exact absent_step hd hne (lookup_absent hmiss)
  · have hm := h.missing hold
    simp only [missOf, Prod.mk.injEq] at heq
    obtain ⟨haddr, hset, htag, -, hval⟩ := heq
    have hline : lineReqLine (step cfg s i) = lineReqLine s := by rw [lineReqLine, haddr]; rfl
    refine ⟨by rw [hset, hline, hm.set], by rw [htag, hline, hm.tag], ?_, ?_⟩
    · intro w hw
      rw [hval, hset, hvalid]
      exact hm.captured w hw
    · rw [hline]
      exact absent_step hd hne hm.absent

/-- What the transport has delivered stays as it was, for a line that is not invalidated
or delivered on the edge. -/
theorem held_update {line : ℕ} (hr : i.rstN = true) (hi : i.invalidate = false)
    (hc : ¬ clears cfg i (cfg.setOf line))
    (hno : ¬ (lineTaken s i = true ∧ i.lineRspError = false ∧ line = t.asked)) :
    (t.update cfg s i).held line = t.held line := by
  have h1 : ¬ (!i.rstN || i.invalidate) = true := by simp [hr, hi]
  have h3 : ¬ (lineTaken s i && !i.lineRspError && line == t.asked) = true := by
    simpa [and_assoc] using hno
  show (if _ then _ else if _ then _ else if _ then _ else _) = _
  rw [if_neg h1, if_neg (show ¬ (_ ∧ _) from hc), if_neg h3]

theorem lineTaken_spec (h : lineTaken s i = true) : i.lineRspValid = true ∧ Waiting s := by
  simp only [lineTaken, lineRspReady, Bool.and_eq_true, Bool.or_eq_true, beq_iff_eq] at h
  exact ⟨h.1, h.2.2⟩

/-- A reply that is no error starts the install. -/
theorem reply_step (hok : installOk i = true) (hs : s.state = .refillWait)
    (hv : i.lineRspValid = true) (he : i.lineRspError = false) :
    (step cfg s i).state = .install ∧ (step cfg s i).missSet = s.missSet ∧
      (step cfg s i).victimWay = s.victimWay := by
  have ht : lineTaken s i = true := by
    simp [lineTaken, lineRspReady, hv, hs, (installOk_iff.1 hok).1]
  have h := @edge_step cfg m s i
  generalize step cfg s i = s' at h ⊢
  obtain ⟨hr, hk, hi⟩ := installOk_iff.1 hok
  cases h with
  | reset h => simp [hr] at h
  | flash _ h => simp [hi] at h
  | kill _ _ h => simp [hk] at h
  | idle _ h | misaligned h | hit h | locked h | missed h | request _ h | install _ h
  | drained _ h => simp [hs] at h
  | reply => exact ⟨by simp [takeLine, he], rfl, rfl⟩
  | wait _ _ h => simp [ht] at h

theorem not_clears (hd : Drained s i) (hr : i.rstN = true) (hs : s.state ≠ .idle) (set : ℕ) :
    ¬ clears cfg i set := fun hc => hs (hd hr hc.1).1

theorem whole_step (hd : Drained s i) (h : LinesInv cfg s t) {set w : ℕ} (hset : set < cfg.setCount)
    (hw : w < cfg.wayCount) (hv : validAt (step cfg s i) set w = true)
    (hnot : ¬ HalfWritten (step cfg s i) set w) :
    ∃ line, (t.update cfg s i).held (lineAt cfg set ((step cfg s i).tagRam w set)) = some line ∧
      HoldsLine (step cfg s i) set w line := by
  obtain ⟨hr, hi, ⟨hpub, rfl, rfl⟩ | ⟨hold, hc, hwas⟩⟩ :=
    validAt_of_step hd (fun hs => (h.missing (.inr (.inr hs))).captured) hw hv
  · -- the way that is published holds both halves
    have hm := h.missing (.inr (.inr hpub.2))
    obtain ⟨line, hheld, h0, h1⟩ := h.halves hpub.2
    have htag : (step cfg s i).tagRam s.victimWay s.missSet = s.missTag := by
      rw [step_tagRam, if_pos ⟨by simp [tagWe, hpub.1, hpub.2], rfl⟩]
    have hline : lineAt cfg s.missSet s.missTag = lineReqLine s := by
      rw [hm.set, hm.tag, lineAt_setOf]
    refine ⟨line, ?_, ?_⟩
    · rw [htag, hline, held_update hr hi (not_clears hd hr (by simp [hpub.2]) _), hheld]
      intro hno
      rcases (lineTaken_spec hno.1).2 with hs | hs <;> simp [hpub.2] at hs
    · intro half hhalf
      have hwe : dataWe s i s.victimWay = true := by simp [dataWe, hpub.1, hpub.2]
      have hone : dataHalf s = 1 := if_pos hpub.2
      have hrow : rowWdata s i = s.lineHalf1 := if_pos hpub.2
      rw [step_dataRam, hone, hrow]
      rcases Nat.le_one_iff_eq_zero_or_eq_one.1 (Nat.le_of_lt_succ hhalf) with rfl | rfl
      · rw [if_neg (fun hno => absurd hno.2.2 (by decide)), h0]
      · rw [if_pos ⟨hwe, rfl, rfl⟩, h1]
  · -- the others are not written
    obtain ⟨line, hheld, hrow⟩ := h.whole set hset w hw hold hwas
    rw [step_tagRam_of_not hwas]
    refine ⟨line, ?_, ?_⟩
    · rw [held_update hr hi (by rwa [setOf_lineAt hset]), hheld]
      rintro ⟨ht, -, hline⟩
      have habsent := h.asked (lineTaken_spec ht).2
      rw [← hline] at habsent
      refine habsent w hw ?_ ?_
      · rwa [setOf_lineAt hset]
      · rw [setOf_lineAt hset, tagOf_lineAt hset]
    · intro half hhalf
      rw [step_dataRam, if_neg, hrow half hhalf]
      rintro ⟨hwe, hin, -⟩
      simp only [dataWe, Bool.and_eq_true, Bool.or_eq_true, beq_iff_eq, Bool.not_eq_true'] at hwe
      obtain ⟨⟨hok, hvict⟩, hs | ⟨⟨hs, hvalid⟩, herr⟩⟩ := hwe
      · exact hwas ⟨hs, hin, hvict.symm⟩
      · obtain ⟨hst, hms, hvw⟩ := @reply_step cfg _ s i hok hs hvalid herr
        exact hnot ⟨hst, hin.trans hms.symm, hvict.symm.trans hvw.symm⟩

theorem unique_step (hd : Drained s i) (h : LinesInv cfg s t) {set v w : ℕ}
    (hset : set < cfg.setCount) (hv : v < cfg.wayCount) (hw : w < cfg.wayCount)
    (hvv : validAt (step cfg s i) set v = true) (hvw : validAt (step cfg s i) set w = true)
    (htag : (step cfg s i).tagRam v set = (step cfg s i).tagRam w set) : v = w := by
  have hcap := fun hs => (h.missing (.inr (.inr hs))).captured
  -- a way that stays does not hold the line another publishes
  have hother : ∀ {u : ℕ}, u < cfg.wayCount → Publishes s i → validAt s s.missSet u = true →
      (step cfg s i).tagRam u s.missSet = (step cfg s i).tagRam s.victimWay s.missSet →
      HalfWritten s s.missSet u := by
    intro u hu hpub hold htag
    by_contra hnot
    have hm := h.missing (.inr (.inr hpub.2))
    rw [step_tagRam_of_not hnot, step_tagRam, if_pos ⟨by simp [tagWe, hpub.1, hpub.2], rfl⟩,
      hm.tag] at htag
    have habsent := hm.absent u hu
    rw [← hm.set] at habsent
    exact habsent hold htag
  obtain ⟨-, -, ⟨hpub, hms, hvict⟩ | ⟨hold, -, hnot⟩⟩ := validAt_of_step hd hcap hv hvv
  · subst hms hvict
    obtain ⟨-, -, ⟨-, -, hvict⟩ | ⟨hold, -, hnot⟩⟩ := validAt_of_step hd hcap hw hvw
    · exact hvict.symm
    · exact absurd (hother hw hpub hold htag.symm) hnot
  · obtain ⟨-, -, ⟨hpub, rfl, rfl⟩ | ⟨hold', -, hnot'⟩⟩ := validAt_of_step hd hcap hw hvw
    · exact absurd (hother hv hpub hold htag) hnot
    · rw [step_tagRam_of_not hnot, step_tagRam_of_not hnot'] at htag
      exact h.unique set hset v hv w hw hold hold' htag

theorem asked_step (hd : Drained s i) (h : LinesInv cfg s t) (hs : Waiting (step cfg s i)) :
    Absent cfg (step cfg s i) (t.update cfg s i).asked := by
  have hkeep : s.state ≠ .refillRequest → (t.update cfg s i).asked = t.asked := by
    intro hne
    exact if_neg (by simp [lineReqValid, hne])
  have hold : Waiting s → Absent cfg (step cfg s i) (t.update cfg s i).asked := by
    intro hw
    rw [hkeep (by rcases hw with hw | hw <;> simp [hw])]
    exact absent_step hd (by rcases hw with hw | hw <;> simp [hw]) (h.asked hw)
  rcases hs with hs | hs
  · rcases refillWait_step hs with ⟨hreq, hv, hready, -⟩ | ⟨hw, -⟩
    · have hasked : (t.update cfg s i).asked = lineReqLine s := if_pos (by simp [hv, hready])
      rw [hasked]
      exact absent_step hd (by simp [hreq]) (h.missing (.inl hreq)).absent
    · exact hold (.inl hw)
  · exact hold (refillDrain_step hs).1

/-- The line a refill is for does not change. -/
theorem lineReqLine_step (hd : Drained s i) (hs : Refilling (step cfg s i)) (hnot : s.state ≠ .idle) :
    lineReqLine (step cfg s i) = lineReqLine s ∧ (step cfg s i).missSet = s.missSet := by
  obtain ⟨-, -, -, -, ⟨hidle, -⟩ | ⟨-, heq⟩⟩ := refilling_step hd hs
  · exact absurd hidle hnot
  · simp only [missOf, Prod.mk.injEq] at heq
    exact ⟨by rw [lineReqLine, heq.1]; rfl, heq.2.1⟩

theorem halves_step (hd : Drained s i) (h : LinesInv cfg s t)
    (hs : (step cfg s i).state = .install) :
    ∃ line, (t.update cfg s i).held (lineReqLine (step cfg s i)) = some line ∧
      (step cfg s i).dataRam (step cfg s i).victimWay (step cfg s i).missSet 0 = line.half 0 ∧
      (step cfg s i).lineHalf1 = line.half 1 := by
  obtain ⟨hok, hw, ht, herr, hvict⟩ := install_step hs
  obtain ⟨hline, hset⟩ := lineReqLine_step hd (.inr (.inr hs)) (by simp [hw])
  obtain ⟨hr, hk, hi⟩ := installOk_iff.1 hok
  have hv := (lineTaken_spec ht).1
  have hc : ¬ clears cfg i (cfg.setOf (lineReqLine s)) := not_clears hd hr (by simp [hw]) _
  refine ⟨i.lineRsp, ?_, ?_, ?_⟩
  · rw [hline]
    show (if _ then _ else if _ then _ else if _ then _ else _) = _
    rw [if_neg (by simp [hr, hi]), if_neg (show ¬ (_ ∧ _) from hc),
      if_pos (by simp [ht, herr, h.wanted hw])]
  · have hwe : dataWe s i s.victimWay = true := by simp [dataWe, hok, hw, hv, herr]
    have hzero : dataHalf s = 0 := if_neg (by simp [hw])
    have hrow : rowWdata s i = i.lineRsp.half 0 := if_neg (by simp [hw])
    rw [hvict, hset, step_dataRam, hzero, hrow, if_pos ⟨hwe, rfl, rfl⟩]
  · rw [step_lineHalf1, if_pos ⟨hw, hv⟩]

/-- **One edge keeps what the ways hold.** -/
theorem linesInv_step (hd : Drained s i) (h : LinesInv cfg s t) :
    LinesInv cfg (step cfg s i) (t.update cfg s i) where
  unique := fun _ hset _ hv _ hw => unique_step hd h hset hv hw
  whole := fun _ hset _ hw => whole_step hd h hset hw
  missing := missing_step hd h
  asked := asked_step hd h
  wanted := by
    intro hs
    rcases refillWait_step hs with ⟨hreq, hv, hready, -⟩ | ⟨hw, -⟩
    · rw [(lineReqLine_step hd (.inr (.inl hs)) (by simp [hreq])).1]
      exact if_pos (by simp [hv, hready])
    · rw [(lineReqLine_step hd (.inr (.inl hs)) (by simp [hw])).1, ← h.wanted hw]
      exact if_neg (by simp [lineReqValid, hw])
  victim := by
    rintro (hs | hs)
    · rcases refillWait_step hs with ⟨-, -, -, hvict⟩ | ⟨hw, -, hvict⟩
      · exact hvict ▸ victimWay_lt
      · exact hvict ▸ h.victim (.inl hw)
    · obtain ⟨-, hw, -, -, hvict⟩ := install_step hs
      exact hvict ▸ h.victim (.inl hw)
  halves := halves_step hd h

theorem linesInv_start (hs : Initial s) : LinesInv cfg s Transport.start := by
  obtain ⟨s₀, rfl⟩ := hs
  have hno : ∀ set w, validAt (clear s₀) set w = false := fun _ _ => rfl
  refine ⟨?_, ?_, ?_, ?_, ?_, ?_, ?_⟩
  · exact fun set _ v _ _ _ hv => nomatch (hno set v ▸ hv)
  · exact fun set _ w _ hv => nomatch (hno set w ▸ hv)
  · rintro (h | h | h) <;> exact IcState.noConfusion h
  · rintro (h | h) <;> exact IcState.noConfusion h
  · exact fun h => IcState.noConfusion h
  · rintro (h | h) <;> exact IcState.noConfusion h
  · exact fun h => IcState.noConfusion h

/-! ## The ranks -/

/-- The ranks of a set, with the update that is still in its registers. -/
def ranks (cfg : Config) (s : State m) (set : ℕ) : ℕ → ℕ :=
  if s.updValid ∧ set = s.updSet then lruWdata cfg s else s.lruRam set

/-- The ways of a set are in order of use once one of them is valid. -/
def RankInv (cfg : Config) (s : State m) : Prop :=
  ∀ set < cfg.setCount, (∃ w < cfg.wayCount, validAt s set w = true) →
    Ranked (Set.Iio cfg.wayCount) cfg.wayCount (ranks cfg s set)

theorem ranked_lruTouch {r : ℕ → ℕ} (h : Ranked (Set.Iio cfg.wayCount) cfg.wayCount r) {way : ℕ}
    (hway : way < cfg.wayCount) : Ranked (Set.Iio cfg.wayCount) cfg.wayCount (lruTouch cfg r way) := by
  refine (ranked_touch h (Set.mem_Iio.2 hway)).congr fun w _ => ?_
  have hlt : r way < cfg.wayCount := h.mapsTo (Set.mem_Iio.2 hway)
  simp only [lruTouch, touch]
  split_ifs
  · rfl
  · rw [Nat.mod_eq_of_lt (by omega)]
  · rfl

/-- The RAM after an edge has the ranks of before it. -/
theorem lruRam_step (set : ℕ) : (step cfg s i).lruRam set = ranks cfg s set := step_lruRam set

/-- An update is put in its registers by a hit, for the way that hit, or by an install, for
the way it publishes. -/
theorem updValid_step (h : (step cfg s i).updValid = true) :
    (accept s i = true ∧ lookupHit cfg s i = true ∧ (step cfg s i).updSeed = false ∧
        (step cfg s i).updSet = lookupSet cfg i ∧ (step cfg s i).updWay = lookupWay cfg s i) ∨
      (Publishes s i ∧ (step cfg s i).updSeed = !(ways cfg).any s.missValid ∧
        (step cfg s i).updSet = s.missSet ∧ (step cfg s i).updWay = s.victimWay) := by
  have he := @edge_step cfg m s i
  generalize step cfg s i = s' at h he ⊢
  cases he with
  | reset | flash | kill | request | drained | wait | reply => cases h
  | idle =>
    rw [loadResponse_eq] at h
    cases h
  | misaligned | locked | missed =>
    rw [captured, loadResponse_eq] at h
    cases h
  | hit _ ha _ hh => exact .inl ⟨ha, hh, rfl, rfl, rfl⟩
  | install hr hs => exact .inr ⟨⟨hr, hs⟩, rfl, rfl, rfl⟩

theorem publish_step (h : Publishes s i) : step cfg s i = installLine cfg s (defaults cfg s i) := by
  obtain ⟨hok, hs⟩ := h
  obtain ⟨hr, hk, hi⟩ := installOk_iff.1 hok
  simp [step, hr, hk, hi, hs]

/-- An update in the registers means no refill is in progress. -/
theorem idle_of_updValid (h : (step cfg s i).updValid = true) : (step cfg s i).state = .idle := by
  rcases updValid_step h with ⟨ha, hh, -⟩ | ⟨hpub, -⟩
  · have hs := (accept_spec ha).2.1
    have he := @edge_step cfg m s i
    generalize step cfg s i = s' at h he ⊢
    cases he with
    | hit =>
      rw [captured, loadResponse_eq]
      exact hs
    | misaligned | locked | missed =>
      rw [captured, loadResponse_eq] at h
      cases h
    | idle =>
      rw [loadResponse_eq] at h
      cases h
    | reset => rfl
    | flash | kill => cases h
    | request _ hne | reply _ hne | install _ hne | drained _ hne => simp [hs] at hne
    | wait _ hne => simp [hs] at hne
  · rw [publish_step hpub]
    rfl

/-- A hit is in one way, and that is the way that is looked up. -/
theorem lookup_way (h : LinesInv cfg s t) (hh : lookupHit cfg s i = true) :
    lookupWay cfg s i < cfg.wayCount ∧ lookupHitWay cfg s i (lookupWay cfg s i) = true ∧
      ∀ v < cfg.wayCount, lookupHitWay cfg s i v = true → v = lookupWay cfg s i := by
  obtain ⟨w, hw, hhit⟩ := List.any_eq_true.1 hh
  have hlt := List.mem_range.1 hw
  have huniq : ∀ v < cfg.wayCount, lookupHitWay cfg s i v = true → v = w := by
    intro v hv hhv
    obtain ⟨hvv, htv⟩ := Bool.and_eq_true_iff.1 hhv
    obtain ⟨hvw, htw⟩ := Bool.and_eq_true_iff.1 hhit
    exact h.unique _ (setOf_lt _) v hv w hlt hvv hvw ((beq_iff_eq.1 htv).trans (beq_iff_eq.1 htw).symm)
  have hway : lookupWay cfg s i = w := by
    have hnd : (ways cfg).Nodup := List.nodup_range
    rw [lookupWay, gather_one hnd hw hhit fun v hv hhv => huniq v (List.mem_range.1 hv) hhv]
    exact Nat.zero_or w
  rw [hway]
  exact ⟨hlt, hhit, huniq⟩

/-- **One edge keeps the ways of every set in use in order.** -/
theorem rankInv_step (hd : Drained s i) (h : LinesInv cfg s t) (hr : RankInv cfg s) :
    RankInv cfg (step cfg s i) := by
  rintro set hset ⟨w, hw, hv⟩
  unfold ranks
  rw [lruRam_step]
  split_ifs with hu
  · obtain ⟨hupd, rfl⟩ := hu
    have haddr : lruRdata (step cfg s i) = ranks cfg s (step cfg s i).updSet := by
      rw [lruRdata, lruRaddr, if_pos hupd, lruRam_step]
    rw [lruWdata, haddr]
    rcases updValid_step hupd with ⟨-, hh, hseed, hset', hway⟩ | ⟨hpub, hseed, hset', hway⟩
    · obtain ⟨hlt, hhit, -⟩ := lookup_way h hh
      rw [hseed, if_neg Bool.false_ne_true, hset', hway]
      exact ranked_lruTouch (hr _ (setOf_lt _) ⟨_, hlt, (Bool.and_eq_true_iff.1 hhit).1⟩) hlt
    · have hm := h.missing (.inr (.inr hpub.2))
      rw [hway]
      refine ranked_lruTouch ?_ (h.victim (.inr hpub.2))
      rw [hseed]
      cases hany : (ways cfg).any s.missValid with
      | false => exact Set.bijOn_id _
      | true =>
        obtain ⟨v, hv, hval⟩ := List.any_eq_true.1 hany
        have hlt := List.mem_range.1 hv
        rw [hm.captured v hlt] at hval
        rw [hset'] at hset ⊢
        exact hr _ hset ⟨v, hlt, hval⟩
  · obtain ⟨-, -, ⟨hpub, hms, -⟩ | ⟨hold, -⟩⟩ :=
      validAt_of_step hd (fun hs => (h.missing (.inr (.inr hs))).captured) hw hv
    · -- an install puts the update of its set in the registers
      refine absurd ?_ hu
      rw [publish_step hpub]
      exact ⟨rfl, hms⟩
    · exact hr set hset ⟨w, hw, hold⟩

theorem rankInv_start (hs : Initial s) : RankInv cfg s := by
  obtain ⟨s₀, rfl⟩ := hs
  rintro set - ⟨w, -, hv⟩
  cases hv

end Invariant

end Icache
end SloPPC603
