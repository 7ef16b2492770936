import SloPPC603.Lsu.Offer
import SloPPC603.Lsu.Removal

/-!
# A refused request stays

A request the port refuses, and that is not offered as speculative, is offered again
on the next cycle, unchanged: an access of P1 whatever becomes of it, since its offer
stands, and a retired store's write unless the write before it answers with an error
on that edge, which cancels it.

* `RetireLegal` — retirement in program order, as the unit sees it.
* `request_held` — on every edge of every run, the one exactly when not the other.
-/

namespace SloPPC603
namespace Lsu

open Clocked (Run)

/-! ## Rules -/

/-- A store retires once everything older has finished, and no recovery names it
then. -/
structure RetireLegal (cfg : Config) (s : State) (i : Input) : Prop
    extends PortLegal cfg s i where
  order : i.commit = true → ∀ c ∈ s.sq, c.killed = false → c.committed = false →
    c.producer = i.commitTag → ∀ e, Unfinished s e → e.killed = false → c.serial < e.serial
  kept : i.commit = true → killedNow i i.commitTag = false

variable {cfg : Config} {s : State} {i : Input}

instance : Decidable (RetireLegal cfg s i) :=
  decidable_of_iff (PortLegal cfg s i ∧ (i.commit = true → ∀ c ∈ s.sq, c.killed = false →
      c.committed = false → c.producer = i.commitTag → ∀ e ∈ unfinished s, e.killed = false →
      c.serial < e.serial) ∧ (i.commit = true → killedNow i i.commitTag = false))
    (by
      simp only [mem_unfinished]
      exact ⟨fun ⟨h, ho, hk⟩ => ⟨h, ho, hk⟩, fun h => ⟨h.toPortLegal, h.order, h.kept⟩⟩)

/-! ## A retired store is older than what P2 holds -/

section Retired

/-- What P2 holds has passed the retired stores. -/
def RetiredInv (s : State) : Prop :=
  ∀ c ∈ s.sq, c.killed = false → c.committed = true →
    ∀ x ∈ s.p2, x.write = false → x.killed = false → x.passed = true

/-- A store retiring on the edge has been passed by what P2 holds, and is not young. -/
theorem passed_of_commit (hI : OrderInv s) (h : RetireLegal cfg s i) (hcommit : i.commit = true)
    {c : SqEntry} (hc : c ∈ s.sq) (hck : c.killed = false) (hcc : c.committed = false)
    (htag : c.producer = i.commitTag) {x : Entry} (hx : x ∈ s.p2) (hw : x.write = false)
    (hk : x.killed = false) : x.passed = true ∧ c.young = false := by
  have hlt := h.order hcommit c hc hck hcc htag x (Or.inr (Or.inl ⟨hx, hw⟩)) hk
  have hplaced := hI.placed x hx hw hk c hc hck hcc
  cases hp : x.passed with
  | false =>
    have hside := lt_of_placed hplaced hp
    omega
  | true =>
    have hside := placed_young hplaced hp
    cases hy : c.young with
    | false => exact ⟨rfl, rfl⟩
    | true =>
      rw [if_pos hy] at hside
      omega

theorem retiredInv_step (hI : OrderInv s) (hR : RetiredInv s) (h : RetireLegal cfg s i) :
    RetiredInv (step cfg s i) := by
  intro c' hc' hck' hcc' x' hx' hw' hk'
  rcases mem_sq_step h.running hc' with ⟨c, hc, rfl⟩ | ⟨hq, rfl⟩
  · have hck := killed_of_sqNext hck'
    rcases mem_p2_step h.running hx' with ⟨x, hx, rfl⟩ | ⟨hfire, rfl⟩
    · have hw : x.write = false := hw'
      have hk : x.killed = false := by
        simp only [p2Next, Bool.or_eq_false_iff] at hk'
        exact hk'.1
      show x.passed = true
      cases hcc : c.committed with
      | true => exact hR c hc hck hcc x hx hw hk
      | false =>
        simp only [sqNext, hcc, Bool.false_or, Bool.and_eq_true, decide_eq_true_eq] at hcc'
        exact (passed_of_commit hI h hcc'.1.2 hc hck hcc hcc'.2 hx hw hk).1
    · -- the port accepts a load past a live store
      have hwrite : (pushed cfg s i).write = false := hw'
      rcases hfire with hp1 | hsq
      · show (pushed cfg s i).passed = true
        rw [(pushed_of_fire (sqFire_of_p1Fire hp1)).2.2, sqLive, List.any_eq_true]
        exact ⟨c, hc, by rw [hck]; rfl⟩
      · rw [(pushed_of_sqFire hsq).1] at hwrite
        cases hwrite
  · -- the store being queued is not finished
    obtain ⟨hvalid, -, -, -, hlive, -⟩ := p1Queue_spec hq
    simp only [sqNext, added, Bool.false_or, Bool.and_eq_true] at hcc'
    exact absurd (of_decide_eq_true hcc'.2)
      (h.finished hcc'.1.2 _ (Or.inl (p1Head_mem hvalid)) hlive)

/-- The store whose write is offered, and what P2 holds. -/
theorem sqOffer_spec (hI : OrderInv s) (hR : RetiredInv s) (h : RetireLegal cfg s i)
    (ho : sqOffer cfg s i = true) : sqValid s = true ∧ (sqHead s).killed = false ∧
      ((sqHead s).committed = true ∨ ((sqHead s).committed = false ∧ i.commit = true ∧
        (sqHead s).producer = i.commitTag)) ∧
      ∀ x ∈ s.p2, x.write = false → x.killed = false → x.passed = true ∧
        ((sqHead s).committed = false → (sqHead s).young = false) := by
  simp only [sqOffer, Bool.and_eq_true, Bool.or_eq_true, Bool.not_eq_true',
    decide_eq_true_eq] at ho
  have hvalid : sqValid s = true := ho.1.1.1.1.1.1.1.2
  have hk : (sqHead s).killed = false := ho.1.1.1.1.1.2
  have hcase := ho.1.1.1.1.1.1.2
  refine ⟨hvalid, hk, ?_, ?_⟩
  · cases hc : (sqHead s).committed with
    | true => exact Or.inl rfl
    | false =>
      rcases hcase with hcom | ⟨hmem, htag⟩
      · rw [hc] at hcom
        cases hcom
      · exact Or.inr ⟨rfl, h.memory hmem, htag⟩
  · intro x hx hw hxk
    cases hc : (sqHead s).committed with
    | true =>
      exact ⟨hR _ (sqHead_mem hvalid) hk hc x hx hw hxk, by rintro ⟨⟩⟩
    | false =>
      rcases hcase with hcom | ⟨hmem, htag⟩
      · rw [hc] at hcom
        cases hcom
      · have hspec := passed_of_commit hI h (h.memory hmem) (sqHead_mem hvalid) hk hc htag hx hw
          hxk
        exact ⟨hspec.1, fun _ => hspec.2⟩

/-- No access is handed to the lane with its response past a retired store's write. -/
theorem no_adopt_of_sqOffer (hI : OrderInv s) (hR : RetiredInv s) (h : RetireLegal cfg s i)
    (ho : sqOffer cfg s i = true) : p2Adopt s i = false := by
  by_contra hadopt
  obtain ⟨hvalid, -, hw, hpassed, hlive, -⟩ := p2Adopt_spec (by simpa using hadopt)
  simp only [p2Live, Bool.and_eq_true, Bool.not_eq_true'] at hlive
  obtain ⟨hp, -⟩ := (sqOffer_spec hI hR h ho).2.2.2 _ (p2Head_mem hvalid) hw hlive.1
  rw [hp] at hpassed
  cases hpassed

/-- **The store at the head over the edge of a refused write**: retired, and
cancelled only by the error of the write before it. -/
theorem sqNext_of_sqOffer (hI : OrderInv s) (hR : RetiredInv s) (h : RetireLegal cfg s i)
    (ho : sqOffer cfg s i = true) : (sqNext cfg s i (sqHead s)).committed = true ∧
      (sqNext cfg s i (sqHead s)).killed = storeError cfg s i := by
  obtain ⟨hvalid, hk, hcase, hp2⟩ := sqOffer_spec hI hR h ho
  have hadopt := no_adopt_of_sqOffer hI hR h ho
  have hnokill : (!(sqHead s).committed && (sqDoom cfg s i || killedNow i (sqHead s).producer ||
      ((sqHead s).young && youngDoom cfg s i))) = false := by
    rcases hcase with hcc | ⟨hcc, hcommit, htag⟩
    · rw [hcc]
      rfl
    · have hfault : p2Valid s = true → (p2Head s).write = false → p2Live s i = true →
          (p2Head s).passed = true ∧ (sqHead s).young = false := by
        intro hv hw hlive
        simp only [p2Live, Bool.and_eq_true, Bool.not_eq_true'] at hlive
        have hspec := hp2 _ (p2Head_mem hv) hw hlive.1
        exact ⟨hspec.1, hspec.2 hcc⟩
      have hsq : sqDoom cfg s i = false := by
        by_contra hd
        rw [Bool.not_eq_false] at hd
        have hpunt : p1Punt s i = false := by
          by_contra hpunt
          have hnil := (punt_spec (by simpa using hpunt)).2.1
          simp [sqDoom, hadopt, fpFault, p2Retire, rspMine, rspOwner, p2Valid, hnil] at hd
        obtain ⟨hv, hw, hlive, -, hside⟩ := p2_fault_spec hI (doom_of_sqDoom hd) hpunt
        rcases hside with ⟨hp, -⟩ | ⟨-, hno, -⟩
        · rw [(hfault hv hw hlive).1] at hp
          cases hp
        · rw [hd] at hno
          cases hno
      have hyoung : ((sqHead s).young && youngDoom cfg s i) = false := by
        cases hd : youngDoom cfg s i with
        | false => rw [Bool.and_false]
        | true =>
          have hpunt : p1Punt s i = false := by
            by_contra hpunt
            have hnil := (punt_spec (by simpa using hpunt)).2.1
            simp [youngDoom, redoSet, fpFault, p2Retire, rspMine, rspOwner, p2Valid, hnil] at hd
          obtain ⟨hv, hw, hlive, -⟩ := p2_fault_spec hI (doom_of_youngDoom hd) hpunt
          rw [(hfault hv hw hlive).2, Bool.false_and]
      rw [hsq, hyoung, htag, h.kept hcommit]
      simp
  have hcom : (sqNext cfg s i (sqHead s)).committed = true := by
    simp only [sqNext, hk, hnokill, Bool.false_or, Bool.not_false, Bool.true_and]
    rcases hcase with hcc | ⟨-, hcommit, htag⟩
    · rw [hcc]
      rfl
    · simp [hcommit, htag]
  refine ⟨hcom, ?_⟩
  have hsame : (sqNext cfg s i (sqHead s)).killed = ((sqHead s).killed ||
      (!(sqHead s).committed && (sqDoom cfg s i || killedNow i (sqHead s).producer ||
        ((sqHead s).young && youngDoom cfg s i))) ||
      ((sqNext cfg s i (sqHead s)).committed && storeError cfg s i)) := rfl
  rw [hsame, hcom, hk, hnokill]
  rfl

theorem retiredInv_run {r : Run (machine cfg)} {n : ℕ} (h : r.Obeys (RetireLegal cfg) n) :
    RetiredInv (r.state n) := by
  have hboth : OrderInv (r.state n) ∧ RetiredInv (r.state n) := by
    refine Run.invariant (I := fun s => OrderInv s ∧ RetiredInv s) (fun s hs => ?_)
      (fun _ _ hI hi => ?_) h
    · rw [show s = resetState from hs]
      exact ⟨orderInv_reset, by simp [RetiredInv, resetState]⟩
    · exact ⟨orderInv_step hI.1 hi.toLegal, retiredInv_step hI.1 hI.2 hi⟩
  exact hboth.2

end Retired

/-! ## The request on the next cycle -/

section Request

/-- The port refuses a request that is not offered as speculative. -/
def Refused (cfg : Config) (s : State) (i : Input) : Prop :=
  reqValid cfg s i = true ∧ i.reqReady = false ∧ reqSpec cfg s i = false

/-- The inputs of the next cycle do not disturb a request: the lane does not take the
port, and the FPU holds the data of its store. -/
structure Undisturbed (s : State) (i i' : Input) : Prop where
  running : i'.rstN = true
  lane : i.laneIdle = true → i'.laneIdle = true
  fpu : (p1Head s).fp = true → (p1Head s).store = true → i'.fpStoreData = i.fpStoreData

/-- **An offer of P1 stays.** -/
theorem request_of_offer (hI : OrderInv s) (hS : StandInv s) (h : PortLegal cfg s i)
    (ho : offer cfg s i = true) (hr : i.reqReady = false) (hspec : reqSpec cfg s i = false)
    {i' : Input} (hi' : Undisturbed s i i') :
    reqValid cfg (step cfg s i) i' = true ∧
      request cfg (step cfg s i) i' = request cfg s i := by
  obtain ⟨hwait, hea, hfast, hsize, hrev, hdata⟩ := head_of_stands hI hS h ho hr
  obtain ⟨hfixed, -⟩ := fixed_of_stands hI h.running ho hr
  have hstate : (step cfg s i).offered = true ∧ (step cfg s i).offeredSpec = false := by
    rw [step, h.running]
    simp [ho, hr, hspec]
  have hsq : sqOffer cfg s i = false := by
    simp only [offer, Bool.and_eq_true, Bool.not_eq_true'] at ho
    exact ho.1.2
  have hsq' : sqOffer cfg (step cfg s i) i' = false := by
    simp [sqOffer, hstate]
  have hea' : headEa cfg (step cfg s i) i' = headEa cfg s i := by
    have hreg : headEa cfg (step cfg s i) i' = (p1Head (step cfg s i)).ea := by
      simp [headEa, hwait]
    exact hreg.trans hea
  have hvalid' : p1Valid (step cfg s i) = true := by
    have hvalid := (ready_of_offer hS ho).1
    have hpop := p1Pop_of_stands hI ho hr
    have hp1 : (step cfg s i).p1 ≠ [] := by
      rw [(step_running h.running).1, p1Shifted, hpop, if_neg Bool.false_ne_true, p1_eq hvalid]
      simp
    simpa [p1Valid] using hp1
  have hoffer : offer cfg (step cfg s i) i' = true := by
    have hfast' : headFast cfg (step cfg s i) i' = true := by
      simp [headFast, hwait, hfast]
    have hbase' : headBaseReady cfg (step cfg s i) i' = true := by
      simp [headBaseReady, hwait]
    simp [offer, hi'.running, hvalid', hfast', hbase', hsq', hstate]
  have hmunge : (p1Head (step cfg s i)).munge = (p1Head s).munge :=
    show (p1Head (step cfg s i)).fixed.munge = (p1Head s).fixed.munge by rw [hfixed]
  have hwide : (p1Head (step cfg s i)).wide = (p1Head s).wide :=
    show (p1Head (step cfg s i)).fixed.wide = (p1Head s).fixed.wide by rw [hfixed]
  have hbytes : p1Nbytes (step cfg s i) = p1Nbytes s := by
    rw [p1Nbytes, p1Nbytes, fp_of_fixed hfixed, hsize]
  have hoff : headOffset cfg (step cfg s i) i' = headOffset cfg s i := by
    rw [headOffset, headOffset, hea', hmunge]
  have hwdata : p1Wdata cfg (step cfg s i) i' = p1Wdata cfg s i := by
    cases hfp : (p1Head s).fp with
    | false =>
      have hd : headData (step cfg s i) i' = headData s i := by
        rw [headData, (hdata hfp).1, if_pos rfl, (hdata hfp).2]
      rw [p1Wdata, p1Wdata, fp_of_fixed hfixed, hfp, storeSource, storeSource, hrev, hd, hbytes,
        hoff, if_neg Bool.false_ne_true, if_neg Bool.false_ne_true]
    | true =>
      cases hst : (p1Head s).store with
      | false => simp [p1Wdata, fp_of_fixed hfixed, store_of_fixed hfixed, hfp, hst]
      | true =>
        simp [p1Wdata, fp_of_fixed hfixed, store_of_fixed hfixed, split_of_fixed hfixed,
          second_of_fixed hfixed, hwide, hfp, hst, hi'.fpu hfp hst]
  have hwstrb : p1Wstrb cfg (step cfg s i) i' = p1Wstrb cfg s i := by
    rw [p1Wstrb, p1Wstrb, fp_of_fixed hfixed, hwide, hsize, hoff]
  refine ⟨by rw [reqValid, hoffer]; rfl, ?_⟩
  simp only [request, hsq, hsq', store_of_fixed hfixed, p1Addr, hea', hmunge, hwdata, hwstrb,
    Bool.false_eq_true, if_false]

/-- The head of the store queue over the edge of a refused write. -/
theorem sqHead_step (h : i.rstN = true) (hcfg : cfg.storeQueue = true)
    (hvalid : sqValid s = true) (hlive : (sqHead s).killed = false)
    (hfire : sqFire cfg s i = false) : sqValid (step cfg s i) = true ∧
      sqHead (step cfg s i) = sqNext cfg s i (sqHead s) := by
  have hdrop : sqDrop s = false := by rw [sqDrop, hlive, Bool.and_false]
  have hsq : (step cfg s i).sq = sqNext cfg s i (sqHead s) ::
      (s.sq.tail ++ if p1Queue cfg s i then [added cfg s i] else []).map (sqNext cfg s i) := by
    rw [(step_running h).2.2.1, if_pos hcfg, sqShifted, hfire, hdrop, Bool.or_false,
      if_neg Bool.false_ne_true]
    conv_lhs => rw [sq_eq hvalid]
    rfl
  rw [sqValid, sqHead, hsq]
  exact ⟨rfl, rfl⟩

/-- **A retired store's write stays, unless the write before it fails.** -/
theorem request_of_sqOffer (hI : OrderInv s) (hR : RetiredInv s) (hZ : Sizes cfg s)
    (h : RetireLegal cfg s i) (ho : sqOffer cfg s i = true) (hr : i.reqReady = false)
    {i' : Input} (hi' : Undisturbed s i i') :
    (reqValid cfg (step cfg s i) i' = true ∧ request cfg (step cfg s i) i' = request cfg s i) ↔
      storeError cfg s i = false := by
  obtain ⟨hvalid, hlive, -⟩ := sqOffer_spec hI hR h ho
  obtain ⟨hcom, hkilled⟩ := sqNext_of_sqOffer hI hR h ho
  have hspec := ho
  simp only [sqOffer, Bool.and_eq_true, Bool.not_eq_true', decide_eq_true_eq] at hspec
  have hcfg : cfg.storeQueue = true := hspec.1.1.1.1.1.1.1.1.1
  have hlane : i.laneIdle = true := hspec.1.1.1.1.2
  have hrsp : s.rspToLane = false := hspec.1.1.1.2
  have hfire : sqFire cfg s i = false := by rw [sqFire, hr, Bool.and_false]
  have hnooffer : offer cfg s i = false := by simp [offer, ho]
  have hp1 : p1Fire cfg s i = false := by rw [p1Fire, hnooffer, Bool.false_and]
  obtain ⟨hvalid', hhead⟩ := sqHead_step h.running hcfg hvalid hlive hfire
  have hstate : (step cfg s i).offered = false ∧ (step cfg s i).sqOffered = true ∧
      (step cfg s i).rspToLane = false := by
    rw [step, h.running]
    simp [hnooffer, ho, hr, hrsp, no_adopt_of_sqOffer hI hR h ho]
  have hroom : (step cfg s i).p2.length ≠ 2 := by
    have hle := p2_length_of_sqOffer hZ ho
    have hlen : (step cfg s i).p2.length ≤ s.p2.length := by
      rw [(step_running h.running).2.1, List.length_map, p2Shifted, hp1, hfire, Bool.or_false,
        if_neg Bool.false_ne_true, List.append_nil]
      split_ifs <;> simp
    omega
  have hload : loadFirst cfg (step cfg s i) = false := by simp [loadFirst, hstate]
  have hoffer' : sqOffer cfg (step cfg s i) i' = !storeError cfg s i := by
    simp [sqOffer, hcfg, hi'.running, hvalid', hhead, hcom, hkilled, hi'.lane hlane, hstate, hroom,
      hload]
  constructor
  · rintro ⟨hreq, hsame⟩
    by_contra herr
    rw [Bool.not_eq_false] at herr
    rw [herr] at hoffer'
    -- only a load could be offered over the cancelled store
    have ho' : offer cfg (step cfg s i) i' = true := by
      simpa [reqValid, hoffer'] using hreq
    have hstore : (p1Head (step cfg s i)).store = true := by
      have hwrite := congrArg Request.write hsame
      simpa [request, ho, hoffer'] using hwrite
    simp [offer, hstate, hstore, hvalid'] at ho'
  · intro herr
    rw [herr] at hoffer'
    refine ⟨by rw [reqValid, hoffer', Bool.or_comm]; rfl, ?_⟩
    have haddr : (sqNext cfg s i (sqHead s)).addr = (sqHead s).addr := rfl
    have hwdata : (sqNext cfg s i (sqHead s)).wdata = (sqHead s).wdata := rfl
    have hwstrb : (sqNext cfg s i (sqHead s)).wstrb = (sqHead s).wstrb := rfl
    simp [request, ho, hoffer', hhead, haddr, hwdata, hwstrb]

/-- **A refused request stays.**  On every edge of every run on which the port refuses
a request that is not speculative, the same request is offered on the next cycle, if
and only if it is not a retired store's write whose predecessor's write fails then. -/
theorem request_held (cfg : Config) (r : Run (machine cfg)) (n : ℕ)
    (h : r.Obeys (RetireLegal cfg) n) (k : ℕ) (hk : k < n)
    (hrefused : Refused cfg (r.state k) (r.input k))
    (hnext : Undisturbed (r.state k) (r.input k) (r.input (k + 1))) :
    (reqValid cfg (r.state (k + 1)) (r.input (k + 1)) = true ∧
      request cfg (r.state (k + 1)) (r.input (k + 1)) = request cfg (r.state k) (r.input k)) ↔
    ¬ (sqOffer cfg (r.state k) (r.input k) = true ∧
      storeError cfg (r.state k) (r.input k) = true) := by
  have hbefore := h.mono (le_of_lt hk)
  obtain ⟨hI, hS⟩ := standInv_run (hbefore.imp fun _ _ hl => hl.toPortLegal)
  have hR := retiredInv_run hbefore
  have hZ := sizes_run (hbefore.imp fun _ _ hl => hl.toLegal)
  obtain ⟨hreq, hready, hspec⟩ := hrefused
  cases ho : sqOffer cfg (r.state k) (r.input k) with
  | true =>
    rw [Run.state_succ]
    refine (request_of_sqOffer hI hR hZ (h k hk) ho hready hnext).trans ?_
    simp
  | false =>
    have hoffer : offer cfg (r.state k) (r.input k) = true := by
      simpa [reqValid, ho] using hreq
    rw [Run.state_succ]
    simp only [Bool.false_eq_true, false_and, not_false_eq_true, iff_true]
    exact request_of_offer hI hS (h k hk).toPortLegal hoffer hready hspec hnext

/-- Two stores queue and retire on following cycles; the port takes the first one's
write and refuses the second one's on the cycle the first one answers. -/
def writesInputs (error : Bool) : ℕ → Input
  | 0 => { dispatchValid := true, uop := .storeWord, producer := ⟨0, 1⟩ }
  | 1 => { dispatchValid := true, uop := .storeWord, producer := ⟨1, 1⟩, ea := 0x100,
           chkOk := true }
  | 2 => { chkOk := true }
  | 3 => { commit := true, commitMem := true, commitTag := ⟨0, 1⟩, reqReady := true }
  | 4 => { commit := true, commitMem := true, commitTag := ⟨1, 1⟩, rspValid := true,
           rspError := error }
  | _ => {}

/-- The run of these inputs from reset. -/
def writesRun (error : Bool) : Run (machine queueConfig) := ⟨resetState, rfl, writesInputs error⟩

theorem writesRun_obeys (error : Bool) : (writesRun error).Obeys (RetireLegal queueConfig) 5 := by
  intro k hk
  cases error <;> interval_cases k <;> decide

theorem writesRun_refused (error : Bool) :
    Refused queueConfig ((writesRun error).state 4) ((writesRun error).input 4) ∧
      Undisturbed ((writesRun error).state 4) ((writesRun error).input 4)
        ((writesRun error).input 5) := by
  refine ⟨?_, ⟨rfl, fun _ => rfl, fun _ _ => ?_⟩⟩
  · cases error <;> exact ⟨by decide, rfl, by decide⟩
  · cases error <;> rfl

/-- **A write is withdrawn.**  The port has refused it once, and on the next cycle
nothing is offered: the error of the write before it has cancelled it. -/
theorem write_withdrawn : (writesRun true).Obeys (RetireLegal queueConfig) 5 ∧
    Refused queueConfig ((writesRun true).state 4) ((writesRun true).input 4) ∧
    Undisturbed ((writesRun true).state 4) ((writesRun true).input 4) ((writesRun true).input 5) ∧
    reqValid queueConfig ((writesRun true).state 5) ((writesRun true).input 5) = false :=
  ⟨writesRun_obeys true, (writesRun_refused true).1, (writesRun_refused true).2, by decide⟩

/-- Without the error it is offered again. -/
theorem request_held_writesRun :
    reqValid queueConfig ((writesRun false).state 5) ((writesRun false).input 5) = true ∧
      request queueConfig ((writesRun false).state 5) ((writesRun false).input 5) =
        request queueConfig ((writesRun false).state 4) ((writesRun false).input 4) :=
  (request_held queueConfig (writesRun false) 5 (writesRun_obeys false) 4 (by decide)
    (writesRun_refused false).1 (writesRun_refused false).2).2 (by decide)

end Request

end Lsu
end SloPPC603
