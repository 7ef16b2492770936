import SloPPC603.Dcache.Capture
import SloPPC603.Dcache.Requests

/-!
# A fill that fails

From the lookup that evicts its victim to an error on the bus, a fill changes nothing but
the words of its own way, which is invalid.  The other ways of the set keep their tags and
their words, and their state but for what a snoop takes from them.

* `Spared` — what a way keeps between two states.
* `EvictedAt` — the lookup a fill comes from.
* `fill_spares` — the ways of a set while one of them is filled.
* `failed_fill` — what an error leaves.
-/

namespace SloPPC603
namespace Dcache

open Clocked

variable {cfg : Config} {s : State} {i : Input}

/-! ## One edge of a fill -/

/-- The registered snoop changes the state of the way. -/
def SnoopTakes (cfg : Config) (s : State) (i : Input) (set w : ℕ) : Prop :=
  s.snpValid = true ∧ sStWe cfg s i = true ∧ cfg.setOf (snpLine s) = set ∧ hway cfg s = w

/-- What another way of the set keeps from one state to another; its state is lost only
to a snoop, which is what `Taken` stands for. -/
structure Spared (a b : State) (set w : ℕ) (Taken : Prop) : Prop where
  tag : b.tagRam w set = a.tagRam w set
  data : ∀ dw, b.dataRam w set dw = a.dataRam w set dw
  valid_le : validAt b set w = true → validAt a set w = true
  dirty_le : dirtyAt b set w = true → dirtyAt a set w = true
  state : ¬ Taken → validAt b set w = validAt a set w ∧ dirtyAt b set w = dirtyAt a set w

theorem Spared.refl (a : State) (set w : ℕ) (T : Prop) : Spared a a set w T :=
  ⟨rfl, fun _ => rfl, id, id, fun _ => ⟨rfl, rfl⟩⟩

theorem Spared.trans {a b c : State} {set w : ℕ} {T T' : Prop} (h : Spared a b set w T)
    (h' : Spared b c set w T') : Spared a c set w (T ∨ T') where
  tag := h'.tag.trans h.tag
  data dw := (h'.data dw).trans (h.data dw)
  valid_le hv := h.valid_le (h'.valid_le hv)
  dirty_le hv := h.dirty_le (h'.dirty_le hv)
  state hno := by
    rw [not_or] at hno
    obtain ⟨hv, hd⟩ := h.state hno.1
    obtain ⟨hv', hd'⟩ := h'.state hno.2
    exact ⟨hv'.trans hv, hd'.trans hd⟩

theorem Spared.mono {a b : State} {set w : ℕ} {T T' : Prop} (h : Spared a b set w T)
    (hT : T → T') : Spared a b set w T' :=
  ⟨h.tag, h.data, h.valid_le, h.dirty_le, fun hno => h.state fun ht => hno (hT ht)⟩

/-- A fill neither looks up, installs nor flashes. -/
theorem fill_quiet (hc : ControlInv s) {p : DcState} (hp : phaseOf s.state = some p)
    (hfill : s.plan.fill = true) :
    lkGo cfg s i = false ∧ installGo s = false ∧ flash s i = false := by
  refine ⟨lkGo_of_phase hp, ?_, ?_⟩
  · cases hgo : installGo s with
    | false => rfl
    | true =>
      have hst := (installGo_spec hgo).1
      rw [hst] at hp
      have hfirst := (hc _ (by rw [hst]; rfl)).2
      -- the install is the last step of a plan
      unfold firstStep at hfirst
      split_ifs at hfirst
  · cases hst : s.state <;> simp [hst, phaseOf] at hp <;> simp [flash, hst]

/-- The state of a way over an edge that neither looks up, installs nor flashes: kept, or
taken by the snoop. -/
theorem quiet_state (hl : LookupInv s) (ho : OwnerInv cfg s) (hgo : lkGo cfg s i = false)
    (hinst : installGo s = false) (hflash : flash s i = false) (set w : ℕ) :
    (validAt (running cfg s i) set w = validAt s set w ∧
        dirtyAt (running cfg s i) set w = dirtyAt s set w) ∨
      (SnoopTakes cfg s i set w ∧
        (validAt (running cfg s i) set w = true → validAt s set w = true) ∧
        (dirtyAt (running cfg s i) set w = true → dirtyAt s set w = true)) := by
  have hdirty : dirtyAt (running cfg s i) set w =
      (validAt (running cfg s i) set w && (running cfg s i).stDirty set w) := rfl
  rw [hdirty, stDirty_running, validAt_running, hflash, Bool.not_false, Bool.true_and]
  by_cases hwe : stWe cfg s i = true ∧ set = stWaddr cfg s
  · have hsnp : s.snpValid = true := by
      by_contra h
      simp [stWe, h, hgo, hinst] at hwe
    have hss : sStWe cfg s i = true := by simpa [stWe, hsnp] using hwe.1
    have hset : cfg.setOf (snpLine s) = set := by
      rw [hwe.2, stWaddr, hsnp, if_pos rfl]
    have hrd : s.rdSet = set := (stWe_set ho hwe.1).trans hwe.2.symm
    have hvld : s.vld w = validAt s set w := by rw [hl.vld, hrd]
    have hdrt : s.drt w = dirtyAt s set w := by rw [hl.drt, hrd]
    rw [if_pos hwe, if_pos hwe, stWvalid, hsnp, if_pos rfl, stWdirty, hsnp, if_pos rfl]
    by_cases hway : w = hway cfg s
    · refine Or.inr ⟨⟨hsnp, hss, hset, hway.symm⟩, ?_, ?_⟩
      · intro h
        rw [← hvld]
        unfold sValid at h
        split_ifs at h
        exact h
      · intro h
        rw [Bool.and_eq_true] at h
        have hd := h.2
        rw [← hdrt]
        unfold sDirty at hd
        split_ifs at hd
        exact hd
    · have hvs : sValid cfg s i w = validAt s set w := by simp [sValid, hway, hvld]
      have hds : sDirty cfg s i w = dirtyAt s set w := by simp [sDirty, hway, hdrt]
      refine Or.inl ⟨hvs, ?_⟩
      rw [hvs, hds, dirtyAt]
      cases validAt s set w <;> simp
  · rw [if_neg hwe, if_neg hwe]
    exact Or.inl ⟨rfl, rfl⟩

/-- **An edge of a fill** leaves the other ways of its set alone. -/
theorem fill_edge (ha : ArrayInv cfg s) {p : DcState} (hp : phaseOf s.state = some p)
    (hfill : s.plan.fill = true) {w : ℕ} (hw : w ≠ s.way) :
    Spared s (running cfg s i) (reqSet cfg s) w (SnoopTakes cfg s i (reqSet cfg s) w) := by
  obtain ⟨hgo, hinst, hflash⟩ := @fill_quiet cfg s i ha.control _ hp hfill
  have htag : (running cfg s i).tagRam w (reqSet cfg s) = s.tagRam w (reqSet cfg s) := by
    rw [tagRam_running, hinst]
    simp
  have hdata : ∀ dw, (running cfg s i).dataRam w (reqSet cfg s) dw =
      s.dataRam w (reqSet cfg s) dw := by
    intro dw
    apply dataRam_kept
    rintro ⟨hwrite, -⟩
    rcases dataWayWe_spec ha.control hwrite with ⟨heq, -⟩ | ⟨hf, -⟩
    · exact hw heq
    · simp [(lkFastSt_spec hf).1] at hgo
  rcases quiet_state ha.lookup ha.owner hgo hinst hflash (reqSet cfg s) w with
    ⟨hv, hd⟩ | ⟨htakes, hv, hd⟩
  · exact ⟨htag, hdata, fun h => hv ▸ h, fun h => hd ▸ h, fun _ => ⟨hv, hd⟩⟩
  · exact ⟨htag, hdata, hv, hd, fun hno => absurd htakes hno⟩

/-! ## From the lookup to the error -/

section Run

variable {r : Run (machine cfg)}

/-- The lookup at edge `j` evicted the victim that the operation at edge `n` fills. -/
structure EvictedAt (r : Run (machine cfg)) (j n : ℕ) : Prop where
  lt : j < n
  go : lkGo cfg (r.state j) (r.input j) = true
  allocates : (lk cfg (r.state j) (r.input j)).plan.install = true
  way : (r.state n).way = victim cfg (r.state j)
  request : current (r.state n) = current (r.state j)
  inside : ∀ k, j < k → k ≤ n → (r.state k).state ≠ .lookup

/-- A snoop takes the way on an edge after the `j`th and before the `n`th. -/
def SnoopedSince (r : Run (machine cfg)) (j n set w : ℕ) : Prop :=
  ∃ k, j < k ∧ k < n ∧ SnoopTakes cfg (r.state k) (r.input k) set w

theorem reqSet_of_current {a b : State} (h : current a = current b) :
    reqSet cfg a = reqSet cfg b := by
  have haddr : a.reqAddr = b.reqAddr := congrArg Request.addr h
  simp [reqSet, reqLine, haddr]

/-- One more edge of a fill. -/
theorem spared_succ {n j w : ℕ} {p : DcState} (ha : ArrayInv cfg (r.state n))
    (hn : r.state (n + 1) = running cfg (r.state n) (r.input n))
    (hp : phaseOf (r.state n).state = some p) (hfill : (r.state n).plan.fill = true) (hj : j < n)
    (hw : w ≠ (r.state n).way)
    (h : Spared (r.state (j + 1)) (r.state n) (reqSet cfg (r.state n)) w
      (SnoopedSince r j n (reqSet cfg (r.state n)) w)) :
    Spared (r.state (j + 1)) (r.state (n + 1)) (reqSet cfg (r.state n)) w
      (SnoopedSince r j (n + 1) (reqSet cfg (r.state n)) w) := by
  rw [hn]
  refine (h.trans (fill_edge ha hp hfill hw)).mono ?_
  rintro (⟨k, hk, hk', ht⟩ | ht)
  · exact ⟨k, hk, by omega, ht⟩
  · exact ⟨n, hj, n.lt_succ_self, ht⟩

/-- **The other ways of the set** are as they were after the victim was evicted, but for
what snoops have taken. -/
theorem fill_spares {n : ℕ} (hrun : r.Obeys OutOfReset n) {p : DcState}
    (hp : phaseOf (r.state n).state = some p) (hfill : (r.state n).plan.fill = true) :
    ∃ j, EvictedAt r j n ∧ ∀ w, w ≠ (r.state n).way →
      Spared (r.state (j + 1)) (r.state n) (reqSet cfg (r.state n)) w
        (SnoopedSince r j n (reqSet cfg (r.state n)) w) := by
  induction n generalizing p with
  | zero =>
    obtain ⟨hst, -⟩ := state_initial r.initial
    rw [Run.state_zero] at hp
    simp [hst, phaseOf] at hp
  | succ n ih =>
    have hobeys := hrun.mono n.le_succ
    have ha := arrayInv_run hobeys
    have hn : r.state (n + 1) = running cfg (r.state n) (r.input n) :=
      step_running (hrun n n.lt_succ_self)
    have hphase : phaseOf (nextState cfg (r.state n) (r.input n)) = some p := by
      rw [hn] at hp
      exact hp
    have hplan : (nextPlan cfg (r.state n) (r.input n)).fill = true := by
      rw [hn] at hfill
      exact hfill
    have hlk : (r.state (n + 1)).state ≠ .lookup := by
      intro h
      simp [h, phaseOf] at hp
    cases hq : phaseOf (r.state n).state with
    | none =>
      obtain ⟨hst, hgo, -, -, hacc, -, hpl⟩ := enter_phase hq hphase
      rw [hpl] at hplan
      have hinst := (planned_fill plan_lookup hplan).1
      refine ⟨n, ⟨n.lt_succ_self, hgo, hinst, ?_, ?_, ?_⟩, fun w _ => Spared.refl _ _ _ _⟩
      · rw [hn]
        simp [running, hgo, (lk_install hinst).2.1]
      · rw [hn, current_running, hacc, if_neg (by simp)]
      · intro k hk hk'
        rwa [show k = n + 1 by omega]
    | some q =>
      have hacc := @reqAccept_of_phase cfg _ (r.input n) _ hq
      have hfill' : (r.state n).plan.fill = true := by
        rcases @phase_step cfg _ (r.input n) _ hq with ⟨-, -, hpl⟩ | ⟨-, -, hpl⟩ | ⟨-, -, -, -, hidle⟩
        · rw [hpl] at hplan
          cases q <;> simp_all [Plan.clear]
        · rwa [hpl] at hplan
        · simp [hidle, phaseOf] at hphase
      obtain ⟨j, hj, hsp⟩ := ih hobeys hq hfill'
      have hcur : current (r.state (n + 1)) = current (r.state n) := by
        rw [hn, current_running, hacc, if_neg (by simp)]
      have hway : (r.state (n + 1)).way = (r.state n).way := by
        rw [hn]
        simp [running, (@lkGo_of_phase cfg _ (r.input n) _ hq)]
      refine ⟨j, ⟨by have := hj.lt; omega, hj.go, hj.allocates, hway.trans hj.way,
        hcur.trans hj.request, ?_⟩, ?_⟩
      · intro k hk hk'
        rcases Nat.lt_or_ge k (n + 1) with hlt | hge
        · exact hj.inside k hk (by omega)
        · rwa [show k = n + 1 by omega]
      · intro w hw
        rw [hway] at hw
        rw [reqSet_of_current hcur]
        exact spared_succ ha hn hq hfill' hj.lt hw (hsp w hw)

/-- **After a beat of a fill, an error among them,** the line is in no way, and the other
ways of its set are as they were after the victim was evicted, but for snoops. -/
theorem failed_fill {n : ℕ} (hrun : r.Obeys OutOfReset (n + 1))
    (hst : (r.state n).state = .fillWait) :
    (∀ w < cfg.wayCount, ¬ holds cfg (r.state (n + 1)) w (reqLine (r.state n))) ∧
      ∃ j, EvictedAt r j n ∧ ∀ w, w ≠ (r.state n).way →
        Spared (r.state (j + 1)) (r.state (n + 1)) (reqSet cfg (r.state n)) w
          (SnoopedSince r j (n + 1) (reqSet cfg (r.state n)) w) := by
  have hobeys := hrun.mono n.le_succ
  have ha := arrayInv_run hobeys
  have hn : r.state (n + 1) = running cfg (r.state n) (r.input n) :=
    step_running (hrun n n.lt_succ_self)
  have hp : phaseOf (r.state n).state = some .fillReq := by rw [hst]; rfl
  obtain ⟨hplanned, hfirst⟩ := ha.control _ hp
  have hfill := firstStep_eq_fill hfirst
  obtain ⟨-, -, hnowhere⟩ := ha.lines.install _ hp (planned_fill hplanned hfill).1
  obtain ⟨j, hj, hsp⟩ := fill_spares hobeys hp hfill
  refine ⟨?_, j, hj, ?_⟩
  · intro w hw hh
    rw [hn] at hh
    rcases holds_running ha.lookup ha.owner hh with ⟨hold, -⟩ | ⟨hinst, -⟩
    · exact hnowhere w hw hold
    · simp [(@fill_quiet cfg _ (r.input n) ha.control _ hp hfill).2.1] at hinst
  · exact fun w hw => spared_succ ha hn hp hfill hj.lt hw (hsp w hw)

end Run

end Dcache
end SloPPC603
