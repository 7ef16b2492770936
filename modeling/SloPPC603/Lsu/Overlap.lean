import Mathlib.Tactic.IntervalCases
import SloPPC603.Lsu.Offer
import SloPPC603.Lsu.Beats

/-!
# No load overtakes an older overlapping store

When the port accepts a load, every older access has been accepted by the port or by
the lane, has been removed, has answered the FPU with a fault, or is a store in the
queue whose doubleword is not the load's; and while one is in the queue the load is
offered as speculative.

* `Fates` — the record of where the accesses have gone.
* `PlaceInv` — every access dispatched is in one of these places.
* `LoadInv` — what a standing load has been checked against.
* `no_load_overtakes` — over every run.
-/

namespace SloPPC603
namespace Lsu

open Clocked (Run)

/-! ## Where accesses go -/

/-- Where the accesses dispatched so far have gone, by serial. -/
structure Fates where
  /-- Marked killed, by a recovery, a fault or the cancellation behind a failed write. -/
  removed : List ℕ
  /-- Answered to the FPU with a fault before any offer. -/
  punted : List ℕ
  /-- Handed to the lane, which has not been idle since. -/
  handed : List ℕ
  /-- Accepted by the port, or performed by the lane. -/
  accepted : List ℕ

/-- The accesses of P1 and the store queue that are marked killed. -/
def marked (s : State) : List ℕ :=
  (s.p1.filter Entry.killed).map Entry.serial ++ (s.sq.filter SqEntry.killed).map SqEntry.serial

/-- The record after an edge. -/
def Fates.update (cfg : Config) (f : Fates) (s : State) (i : Input) : Fates where
  removed := f.removed ++ marked (step cfg s i)
  punted := f.punted ++ if p1Punt s i then [(p1Head s).serial] else []
  handed := (if i.laneIdle then [] else f.handed) ++
    if adoptFire s i && !p2Adopt s i && !redoAdopt s i then [(p1Head s).serial] else []
  accepted := f.accepted ++ (if i.laneIdle then f.handed else []) ++
    (if p1Fire cfg s i && lastBeat (p1Head s) then [(p1Head s).serial] else []) ++
    (if sqFire cfg s i then [(sqHead s).serial] else [])

/-- The record beside a run. -/
def fates (cfg : Config) (r : Run (machine cfg)) (n : ℕ) : Fates :=
  r.history ⟨[], [], [], []⟩ (Fates.update cfg) n

variable {cfg : Config} {s : State} {i : Input} {f : Fates} {k : ℕ}

/-- The access is in P1, or is a store of the queue that is not removed. -/
def InPlace (s : State) (k : ℕ) : Prop :=
  (∃ e ∈ s.p1, e.serial = k) ∨ ∃ c ∈ s.sq, c.serial = k ∧ c.killed = false

/-- Every access dispatched is in the unit or in the record. -/
structure PlaceInv (cfg : Config) (s : State) (f : Fates) : Prop where
  place : ∀ k < s.serials, InPlace s k ∨ k ∈ f.removed ∨ k ∈ f.punted ∨ k ∈ f.handed ∨
    k ∈ f.accepted
  killed : ∀ e ∈ s.p1, e.killed = true → e.serial ∈ f.removed
  queue : s.sq ≠ [] → cfg.storeQueue = true
  /-- The lane has been idle since an offer began. -/
  idle : s.offered = true → f.handed = []

section Place

theorem mem_marked_p1 {e : Entry} (he : e ∈ s.p1) (hk : e.killed = true) :
    e.serial ∈ marked s :=
  List.mem_append_left _ (List.mem_map_of_mem (List.mem_filter.2 ⟨he, hk⟩))

theorem mem_marked_sq {c : SqEntry} (hc : c ∈ s.sq) (hk : c.killed = true) :
    c.serial ∈ marked s :=
  List.mem_append_right _ (List.mem_map_of_mem (List.mem_filter.2 ⟨hc, hk⟩))

/-- A store that stays in the queue is live there or marked. -/
theorem sq_place {c : SqEntry} (hc : c ∈ s.sq) :
    InPlace s c.serial ∨ c.serial ∈ marked s := by
  cases hk : c.killed with
  | false => exact Or.inl (Or.inr ⟨c, hc, rfl, hk⟩)
  | true => exact Or.inr (mem_marked_sq hc hk)

/-- An access that leaves P1 goes to the port, the queue, the FPU or the lane, or was
marked. -/
theorem leave_p1 (hB : BeatInv s) (hP : PlaceInv cfg s f)
    (hrun : i.rstN = true) (hvalid : p1Valid s = true) (hpop : p1Pop cfg s i = true) :
    InPlace (step cfg s i) (p1Head s).serial ∨
      (p1Head s).serial ∈ (f.update cfg s i).removed ∨
      (p1Head s).serial ∈ (f.update cfg s i).punted ∨
      (p1Head s).serial ∈ (f.update cfg s i).handed ∨
      (p1Head s).serial ∈ (f.update cfg s i).accepted := by
  have hremoved : (p1Head s).killed = true →
      (p1Head s).serial ∈ (f.update cfg s i).removed := fun hk =>
    List.mem_append_left _ (hP.killed _ (p1Head_mem hvalid) hk)
  cases hfire : p1Fire cfg s i with
  | true =>
    cases hlast : lastBeat (p1Head s) with
    | true =>
      right; right; right; right
      simp [Fates.update, hfire, hlast]
    | false =>
      cases hk : (p1Head s).killed with
      | true => exact Or.inr (Or.inl (hremoved hk))
      | false =>
        -- the second beat is behind it in P1
        obtain ⟨d, hd, hser, -, hdlast, -⟩ := hB.pair _
          (mem_line.2 (Or.inr (p1Head_mem hvalid))) hk hlast
        have hne : d ≠ p1Head s := by
          rintro rfl
          rw [hdlast] at hlast
          cases hlast
        rcases mem_line.1 hd with ⟨hp2, hw⟩ | hp1
        · exfalso
          have horder := hB.order
          rw [line, List.pairwise_append] at horder
          have hback := horder.2.2 d (List.mem_filter.2 ⟨hp2, by rw [hw]; rfl⟩) _
            (p1Head_mem hvalid) hser
          rw [hback] at hlast
          cases hlast
        · rcases @p1_stays cfg s i hrun _ hp1 with ⟨e', he', hfixed, -⟩ | ⟨-, heq⟩
          · exact Or.inl (Or.inl ⟨e', he', (serial_of_fixed hfixed).trans hser⟩)
          · exact absurd heq hne
  | false =>
    rcases p1Pop_spec hpop hfire with hq | hdrop | hpunt | ⟨hadopt, -, hp2, hredo⟩
    · have hin : sqNext cfg s i (added cfg s i) ∈ (step cfg s i).sq := by
        rw [(step_running hrun).2.2.1, if_pos (p1Queue_spec hq).2.2.2.2.2.2.2.2.2.1]
        apply List.mem_map_of_mem
        rw [sqShifted, if_pos hq]
        exact List.mem_append_right _ (List.mem_singleton.2 rfl)
      rcases sq_place hin with hplace | hmark
      · exact Or.inl hplace
      · exact Or.inr (Or.inl (List.mem_append_right _ hmark))
    · simp only [p1Drop, Bool.and_eq_true] at hdrop
      exact Or.inr (Or.inl (hremoved hdrop.1.2))
    · right; right; left
      simp [Fates.update, hpunt]
    · right; right; right; left
      simp [Fates.update, hadopt, hp2, hredo]

/-- A store of the queue is written, or stays. -/
theorem leave_sq (hP : PlaceInv cfg s f) (hrun : i.rstN = true) {c : SqEntry} (hc : c ∈ s.sq)
    (hk : c.killed = false) : InPlace (step cfg s i) c.serial ∨
      c.serial ∈ (f.update cfg s i).removed ∨ c.serial ∈ (f.update cfg s i).accepted := by
  have hcfg : cfg.storeQueue = true := hP.queue (List.ne_nil_of_mem hc)
  by_cases hstay : c ∈ if sqFire cfg s i || sqDrop s then s.sq.tail else s.sq
  · have hin : sqNext cfg s i c ∈ (step cfg s i).sq := by
      rw [(step_running hrun).2.2.1, if_pos hcfg]
      exact List.mem_map_of_mem (List.mem_append_left _ hstay)
    rcases sq_place hin with hplace | hmark
    · exact Or.inl hplace
    · exact Or.inr (Or.inl (List.mem_append_right _ hmark))
  · -- only the head leaves, and a live one by its write
    have hvalid := sqValid_of_mem hc
    split_ifs at hstay with hgo
    · have hhead : c = sqHead s := by
        rw [sq_eq hvalid] at hc
        rcases List.mem_cons.1 hc with heq | htail
        · exact heq
        · exact absurd htail hstay
      subst hhead
      have hfire : sqFire cfg s i = true := by
        rw [Bool.or_eq_true] at hgo
        rcases hgo with hfire | hdrop
        · exact hfire
        · rw [sqDrop, hk, Bool.and_false] at hdrop
          cases hdrop
      right; right
      simp [Fates.update, hfire]
    · exact absurd hc hstay

theorem place_step (hB : BeatInv s) (hP : PlaceInv cfg s f)
    (hrun : i.rstN = true) : ∀ k < (step cfg s i).serials, InPlace (step cfg s i) k ∨
      k ∈ (f.update cfg s i).removed ∨ k ∈ (f.update cfg s i).punted ∨
      k ∈ (f.update cfg s i).handed ∨ k ∈ (f.update cfg s i).accepted := by
  intro k hk
  by_cases hnew : k < s.serials
  · rcases hP.place k hnew with (⟨e, he, rfl⟩ | ⟨c, hc, rfl, hck⟩) | hr | hp | hh | ha
    · rcases @p1_stays cfg s i hrun _ he with ⟨e', he', hfixed, -⟩ | ⟨hpop, rfl⟩
      · exact Or.inl (Or.inl ⟨e', he', serial_of_fixed hfixed⟩)
      · exact leave_p1 hB hP hrun (p1Valid_of_mem he) hpop
    · rcases leave_sq hP hrun hc hck with h1 | h2 | h3
      · exact Or.inl h1
      · exact Or.inr (Or.inl h2)
      · exact Or.inr (Or.inr (Or.inr (Or.inr h3)))
    · exact Or.inr (Or.inl (List.mem_append_left _ hr))
    · exact Or.inr (Or.inr (Or.inl (List.mem_append_left _ hp)))
    · cases hidle : i.laneIdle with
      | true =>
        right; right; right; right
        simp [Fates.update, hidle, hh]
      | false =>
        right; right; right; left
        simp [Fates.update, hidle, hh]
    · right; right; right; right
      simp [Fates.update, ha]
  · obtain ⟨e, he, hser⟩ := new_mem_p1 hrun hk hnew
    exact Or.inl (Or.inl ⟨e, he, hser⟩)

theorem placeInv_step (hI : OrderInv s) (hB : BeatInv s) (hP : PlaceInv cfg s f)
    (hrun : i.rstN = true) : PlaceInv cfg (step cfg s i) (f.update cfg s i) where
  place := place_step hB hP hrun
  killed := fun _ he hk => List.mem_append_right _ (mem_marked_p1 he hk)
  queue := by
    intro hne
    by_contra hcfg
    rw [(step_running hrun).2.2.1, if_neg hcfg] at hne
    exact hne rfl
  idle := by
    intro hoff
    obtain ⟨ho, hr⟩ := offered_step hrun hoff
    have hpop := p1Pop_of_stands hI ho hr
    have hno : (adoptFire s i && !p2Adopt s i && !redoAdopt s i) = false := by
      simp only [p1Pop, Bool.or_eq_false_iff] at hpop
      exact hpop.2
    have hidle : (if i.laneIdle then [] else f.handed) = [] := by
      cases hl : i.laneIdle with
      | true => rfl
      | false =>
        rw [if_neg Bool.false_ne_true]
        apply hP.idle
        simp only [offer, hl, Bool.and_eq_true] at ho
        by_cases hk : (p1Head s).killed = true
        · rw [if_pos hk, Bool.and_eq_true] at ho
          exact ho.2.1
        · rw [if_neg hk, Bool.or_eq_true] at ho
          rcases ho.2 with hoff' | hnew
          · exact hoff'
          · simp at hnew
    simp [Fates.update, hidle, hno]

end Place

/-! ## What a standing load has been checked against -/

/-- A standing load is apart from the live stores of the queue; an offer standing
without speculation has none to be apart from. -/
structure LoadInv (s : State) : Prop where
  apart : s.offered = true → (p1Head s).killed = false → (p1Head s).store = false →
    ∀ c ∈ s.sq, c.killed = false →
      dword c.addr ≠ dword (accessAddr (p1Head s).ea (p1Head s).munge)
  spec : s.offered = true → s.offeredSpec = false → ∀ c ∈ s.sq, c.killed = true

section Load

/-- A live load that is offered is apart from the live stores of the queue. -/
theorem apart_of_offer (hS : StandInv s) (hL : LoadInv s) (ho : offer cfg s i = true)
    (hlive : (p1Head s).killed = false) (hload : (p1Head s).store = false) :
    ∀ c ∈ s.sq, c.killed = false → dword c.addr ≠ dword (p1Addr cfg s i) := by
  intro c hc hk
  have hspec := ho
  simp only [offer, hlive, hload, Bool.false_eq_true, if_false, Bool.and_eq_true,
    Bool.or_eq_true] at hspec
  rcases hspec.2 with hoff | hnew
  · have hea : headEa cfg s i = (p1Head s).ea := by simp [headEa, hS.base hoff]
    rw [p1Addr, hea]
    exact hL.apart hoff hlive hload c hc hk
  · have hno := hnew.2.1
    rw [Bool.not_eq_true', sqOverlap, List.any_eq_false] at hno
    have hc' := hno c hc
    rw [hk] at hc'
    simpa using hc'

/-- A removed access is only offered with no live store in the queue. -/
theorem sq_killed_of_offer (hL : LoadInv s) (ho : offer cfg s i = true)
    (hk : (p1Head s).killed = true) : ∀ c ∈ s.sq, c.killed = true := by
  simp only [offer, hk, if_true, Bool.and_eq_true, Bool.not_eq_true'] at ho
  exact hL.spec ho.2.1 ho.2.2

theorem not_sqOffer_of_offer (ho : offer cfg s i = true) : sqOffer cfg s i = false := by
  simp only [offer, Bool.and_eq_true, Bool.not_eq_true'] at ho
  exact ho.1.2

/-- An offer beside a live store of the queue is speculative. -/
theorem reqSpec_of_live (ho : offer cfg s i = true) {c : SqEntry} (hc : c ∈ s.sq)
    (hk : c.killed = false) : reqSpec cfg s i = true := by
  have hlive : sqLive s = true := by
    rw [sqLive, List.any_eq_true]
    exact ⟨c, hc, by rw [hk]; rfl⟩
  rw [reqSpec, not_sqOffer_of_offer ho, hlive]
  rfl

theorem loadInv_step (hI : OrderInv s) (hS : StandInv s) (hL : LoadInv s)
    (h : PortLegal cfg s i) : LoadInv (step cfg s i) where
  apart := by
    intro hoff hlive hload
    obtain ⟨ho, hr⟩ := offered_step h.running hoff
    obtain ⟨hfixed, hkilled⟩ := fixed_of_stands hI h.running ho hr
    have hea := (head_of_stands hI hS h ho hr).2.1
    have hmunge : (p1Head (step cfg s i)).munge = (p1Head s).munge :=
      show (p1Head (step cfg s i)).fixed.munge = (p1Head s).fixed.munge by rw [hfixed]
    have hold : (p1Head s).killed = false := by
      by_contra hk
      rw [hkilled (by simpa using hk)] at hlive
      cases hlive
    rw [store_of_fixed hfixed] at hload
    intro c' hc' hk'
    rcases mem_sq_step h.running hc' with ⟨c, hc, rfl⟩ | ⟨hq, -⟩
    · rw [hea, hmunge]
      exact apart_of_offer hS hL ho hold hload c hc (killed_of_sqNext hk')
    · rw [p1Queue_of_offer ho] at hq
      cases hq
  spec := by
    intro hoff hspec c' hc'
    obtain ⟨ho, hr⟩ := offered_step h.running hoff
    rcases mem_sq_step h.running hc' with ⟨c, hc, rfl⟩ | ⟨hq, -⟩
    · by_contra hk'
      have hlive := killed_of_sqNext (by simpa using hk')
      have hnow := reqSpec_of_live ho hc hlive
      rw [step, h.running] at hspec
      simp [ho, hr, hnow] at hspec
    · rw [p1Queue_of_offer ho] at hq
      cases hq

end Load

/-! ## Runs -/

/-- The registers and the record together. -/
structure Ordered (cfg : Config) (s : State) (f : Fates) : Prop where
  order : OrderInv s
  beats : BeatInv s
  stand : StandInv s
  load : LoadInv s
  place : PlaceInv cfg s f

section Overlaps

theorem ordered_run {r : Run (machine cfg)} {n : ℕ} (h : r.Obeys (PortLegal cfg) n) :
    Ordered cfg (r.state n) (fates cfg r n) := by
  refine Run.invariant_history (I := Ordered cfg) (fun s hs => ?_) (fun _ _ _ hI hi => ?_) h
  · rw [show s = resetState from hs]
    exact ⟨orderInv_reset, beatInv_reset, ⟨by simp [resetState], by simp [resetState]⟩,
      ⟨by simp [resetState], by simp [resetState]⟩,
      ⟨by simp [resetState], by simp [resetState], by simp [resetState], by simp [resetState]⟩⟩
  · exact ⟨orderInv_step hI.order hi.toLegal, beatInv_step hI.order hI.beats hi.running,
      standInv_step hI.order hI.stand hi, loadInv_step hI.order hI.stand hI.load hi,
      placeInv_step hI.order hI.beats hI.place hi.running⟩

/-- Nothing in P1 is older than its head. -/
theorem head_le (hI : OrderInv s) {e : Entry} (he : e ∈ s.p1) :
    (p1Head s).serial ≤ e.serial := by
  have hline := hI.line
  rw [line, List.map_append, List.pairwise_append] at hline
  have hp1 := hline.2.1
  have hvalid := p1Valid_of_mem he
  rw [p1_eq hvalid, List.map_cons, List.pairwise_cons] at hp1
  rw [p1_eq hvalid] at he
  rcases List.mem_cons.1 he with rfl | htail
  · exact le_rfl
  · rcases hp1.1 _ (List.mem_map_of_mem htail) with hlt | ⟨heq, -⟩
    · exact le_of_lt hlt
    · exact le_of_eq heq

/-- The older access has been accepted by the port, or performed by the lane. -/
def Performed (f : Fates) (i : Input) (k : ℕ) : Prop :=
  k ∈ f.accepted ∨ (k ∈ f.handed ∧ i.laneIdle = true)

/-- **No load overtakes an older overlapping store.**  Whenever the port accepts a
load, each older access has been performed, has been removed or has answered the FPU
with a fault, or is a store in the queue of another doubleword, and then the load has
been offered as speculative all along. -/
theorem no_load_overtakes (cfg : Config) (r : Run (machine cfg)) (n : ℕ)
    (h : r.Obeys (PortLegal cfg) n) (j : ℕ) (hj : j < n)
    (hfire : p1Fire cfg (r.state j) (r.input j) = true)
    (hload : (p1Head (r.state j)).store = false) (k : ℕ)
    (hk : k < (p1Head (r.state j)).serial) :
    k ∈ (fates cfg r j).removed ∨ k ∈ (fates cfg r j).punted ∨
      Performed (fates cfg r j) (r.input j) k ∨
      ∃ c ∈ (r.state j).sq, c.serial = k ∧ c.killed = false ∧
        dword c.addr ≠ dword (p1Addr cfg (r.state j) (r.input j)) ∧
        reqSpec cfg (r.state j) (r.input j) = true ∧
        ((r.state j).offered = true → (r.state j).offeredSpec = true) := by
  have hO := ordered_run (h.mono (le_of_lt hj))
  obtain ⟨ho, -, hvalid, -⟩ := p1Fire_spec hfire
  have hbound := hO.order.bound _ (List.mem_append_right _ (p1Head_mem hvalid))
  rcases hO.place.place k (by omega) with (⟨e, he, rfl⟩ | ⟨c, hc, rfl, hck⟩) | hr | hp | hh | ha
  · have hle := head_le hO.order he
    omega
  · right; right; right
    have hlive : (p1Head (r.state j)).killed = false := by
      by_contra hkilled
      rw [sq_killed_of_offer hO.load ho (by simpa using hkilled) c hc] at hck
      exact absurd hck (by simp)
    refine ⟨c, hc, rfl, hck, apart_of_offer hO.stand hO.load ho hlive hload c hc hck,
      reqSpec_of_live ho hc hck, ?_⟩
    intro hoff
    by_contra hspec
    rw [hO.load.spec hoff (by simpa using hspec) c hc] at hck
    exact absurd hck (by simp)
  · exact Or.inl hr
  · exact Or.inr (Or.inl hp)
  · -- the lane has been idle since the load was first offered
    right; right; left
    right
    refine ⟨hh, ?_⟩
    by_contra hidle
    have hno : (r.state j).offered = true → False := by
      intro hoff
      rw [hO.place.idle hoff] at hh
      exact absurd hh List.not_mem_nil
    simp only [offer, Bool.and_eq_true] at ho
    by_cases hkilled : (p1Head (r.state j)).killed = true
    · rw [if_pos hkilled, Bool.and_eq_true] at ho
      exact hno ho.2.1
    · rw [if_neg hkilled, Bool.or_eq_true] at ho
      rcases ho.2 with hoff | hnew
      · exact hno hoff
      · simp only [Bool.and_eq_true] at hnew
        exact hidle hnew.1.1.1.1.1
  · exact Or.inr (Or.inr (Or.inl (Or.inl ha)))

/-- A misaligned FP store answers the FPU with a fault before any offer; a load of its
doubleword is dispatched behind it. -/
def puntInputs : ℕ → Input
  | 0 => { dispatchValid := true, uop := .storeWord, producer := ⟨0, 1⟩, fp := true,
           fpStore := true, ea := 0x101 }
  | 1 => { fpLaunchValid := true, fpLaunchTag := ⟨0, 1⟩ }
  | 2 => {}
  | 3 => { dispatchValid := true, uop := .loadWord, producer := ⟨1, 1⟩, ea := 0x100 }
  | _ => { reqReady := true }

/-- The run of these inputs from reset. -/
def puntRun : Run (machine queueConfig) := ⟨resetState, rfl, puntInputs⟩

theorem puntRun_obeys : puntRun.Obeys (PortLegal queueConfig) 5 := by
  intro k hk
  interval_cases k <;> decide

/-- **The pipe and the store queue keep program order**, and never outgrow their registers. -/
theorem pipe_in_order {r : Run (machine cfg)} {n : ℕ} (h : r.Obeys (Legal cfg) n) :
    OrderInv (r.state n) ∧ Sizes cfg (r.state n) := ⟨orderInv_run h, sizes_run h⟩

theorem pipe_in_order_puntRun :
    OrderInv (puntRun.state 5) ∧ Sizes queueConfig (puntRun.state 5) :=
  pipe_in_order (puntRun_obeys.imp fun _ _ h => h.toLegal)

/-- **A load passes a faulted FP store.**  The store has not been removed and has not
been written, its doubleword is the load's, and the load is not speculative. -/
theorem load_passes_punted_store : puntRun.Obeys (PortLegal queueConfig) 5 ∧
    (p1Head (puntRun.state 1)).store = true ∧ (p1Head (puntRun.state 1)).serial = 0 ∧
    p1Fire queueConfig (puntRun.state 4) (puntRun.input 4) = true ∧
    (p1Head (puntRun.state 4)).store = false ∧ (p1Head (puntRun.state 4)).serial = 1 ∧
    dword (p1Head (puntRun.state 1)).ea =
      dword (p1Addr queueConfig (puntRun.state 4) (puntRun.input 4)) ∧
    0 ∉ (fates queueConfig puntRun 5).removed ∧ 0 ∉ (fates queueConfig puntRun 5).accepted ∧
    (puntRun.state 4).sq = [] ∧
    reqSpec queueConfig (puntRun.state 4) (puntRun.input 4) = false :=
  ⟨puntRun_obeys, by decide, by decide, by decide, by decide, by decide, by decide, by decide,
    by decide, by decide, by decide⟩

/-- A store queues, and the port accepts a load of another doubleword behind it. -/
def passInputs : ℕ → Input
  | 0 => { dispatchValid := true, uop := .storeWord, producer := ⟨0, 1⟩, ea := 0x100 }
  | 1 => { dispatchValid := true, uop := .loadWord, producer := ⟨1, 1⟩, ea := 0x200,
           chkOk := true }
  | _ => { reqReady := true }

/-- The run of these inputs from reset. -/
def passRun : Run (machine queueConfig) := ⟨resetState, rfl, passInputs⟩

theorem passRun_obeys : passRun.Obeys (PortLegal queueConfig) 3 := by
  intro k hk
  interval_cases k <;> decide

/-- The load is speculative and apart from the store. -/
theorem no_load_overtakes_passRun : ∃ c ∈ (passRun.state 2).sq, c.serial = 0 ∧
    c.killed = false ∧
    dword c.addr ≠ dword (p1Addr queueConfig (passRun.state 2) (passRun.input 2)) ∧
    reqSpec queueConfig (passRun.state 2) (passRun.input 2) = true ∧
    ((passRun.state 2).offered = true → (passRun.state 2).offeredSpec = true) := by
  rcases no_load_overtakes queueConfig passRun 3 passRun_obeys 2 (by decide) (by decide)
    (by decide) 0 (by decide) with hr | hp | (ha | ⟨hh, -⟩) | hqueued
  · exact absurd hr (by decide)
  · exact absurd hp (by decide)
  · exact absurd ha (by decide)
  · exact absurd hh (by decide)
  · exact hqueued

end Overlaps

end Lsu
end SloPPC603
