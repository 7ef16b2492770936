import SloPPC603.Bus.Tenures

/-!
# Single-beat accesses

The one or two transfers of a single-beat access against the bytes its request enables, and
what those bytes hold once it has ended.

* `PlanCovers`, `planCovers` — the transfers of a plan.
* `parts`, `stored` — the transfers of a write beside a run.
* `SingleBeats`, `singleBeats` — reads and writes over whole runs.
-/

namespace SloPPC603
namespace Bus
namespace CacheMaster

open Clocked

/-! ## Lanes of a transfer -/

/-- The bytes of a transfer that is no burst. -/
def sizeOf (tsiz : BitVec 3) : ℕ := if tsiz = 0 then 8 else tsiz.toNat

/-- The transfer of `tsiz` at offset `off` has byte lane `k`. -/
def covers (off tsiz : BitVec 3) (k : ℕ) : Bool :=
  off.toNat ≤ k && k < off.toNat + sizeOf tsiz

/-- A pair of offset and TSIZ the 60x bus allows: a doubleword, or up to four bytes of one word. -/
def Legal (off tsiz : BitVec 3) : Prop :=
  (tsiz = 0 ∧ off = 0) ∨ (1 ≤ tsiz ∧ tsiz ≤ 4 ∧ off.toNat % 4 + tsiz.toNat ≤ 4)

instance (off tsiz : BitVec 3) : Decidable (Legal off tsiz) := by
  unfold Legal
  infer_instance

/-- The byte enables are of bytes that follow one another. -/
def Contiguous (be : BitVec 8) : Prop :=
  ∃ f < 8, ∃ l < 8, f ≤ l ∧ ∀ k < 8, be.getLsbD (7 - k) = decide (f ≤ k ∧ k ≤ l)

/-- The transfers of a plan, each an offset and a TSIZ. -/
def planned (be : BitVec 8) : List (BitVec 3 × BitVec 3) :=
  let plan := planSingle be
  (plan.off0, plan.siz0) :: if plan.split then [(4, plan.siz1)] else []

/-- The transfers of a plan have the enabled bytes. -/
structure PlanCovers (be : BitVec 8) : Prop where
  ok : (planSingle be).ok = true
  legal : ∀ t ∈ planned be, Legal t.1 t.2
  /-- Only a doubleword crosses a word boundary. -/
  word : be ≠ 0xff → ∀ t ∈ planned be, ∀ j < 8, ∀ k < 8,
    covers t.1 t.2 j = true → covers t.1 t.2 k = true → j / 4 = k / 4
  inside : ∀ t ∈ planned be, t.1.toNat + sizeOf t.2 ≤ 8
  lanes : ∀ k < 8, be.getLsbD (7 - k) = (planned be).any fun t => covers t.1 t.2 k
  once : (planned be).Pairwise fun t u => ∀ k < 8, (covers t.1 t.2 k && covers u.1 u.2 k) = false

/-- The enables of bytes `f` to `l`. -/
def enables (f l : Fin 8) : BitVec 8 := (0xff#8 >>> f.val) &&& (0xff#8 <<< (7 - l.val))

theorem getLsbD_enables : ∀ f l : Fin 8, ∀ k < 8,
    (enables f l).getLsbD (7 - k) = decide (f.val ≤ k ∧ k ≤ l.val) := by decide +kernel

theorem Contiguous.eq_enables {be : BitVec 8} (h : Contiguous be) :
    ∃ f l : Fin 8, f ≤ l ∧ be = enables f l := by
  obtain ⟨f, hf, l, hl, hfl, hbe⟩ := h
  refine ⟨⟨f, hf⟩, ⟨l, hl⟩, hfl, BitVec.eq_of_getLsbD_eq fun j hj => ?_⟩
  have hk : 7 - (7 - j) = j := by omega
  have hb := hbe (7 - j) (by omega)
  have he := getLsbD_enables ⟨f, hf⟩ ⟨l, hl⟩ (7 - j) (by omega)
  rw [hk] at hb he
  rw [hb, he]

/-- A transfer that is no doubleword stays in one word. -/
theorem Legal.word {off tsiz : BitVec 3} (h : Legal off tsiz) (hne : tsiz ≠ 0) {j k : ℕ}
    (hj : covers off tsiz j = true) (hk : covers off tsiz k = true) : j / 4 = k / 4 := by
  obtain ⟨hzero, -⟩ | ⟨-, -, hfit⟩ := h
  · exact absurd hzero hne
  · simp only [covers, sizeOf, if_neg hne, Bool.and_eq_true, decide_eq_true_eq] at hj hk
    omega

theorem planned_ne_zero : ∀ f l : Fin 8, f ≤ l → enables f l ≠ 0xff →
    ∀ t ∈ planned (enables f l), t.2 ≠ 0 := by decide +kernel

theorem planCovers {be : BitVec 8} (h : Contiguous be) : PlanCovers be := by
  obtain ⟨f, l, hfl, rfl⟩ := h.eq_enables
  have hlegal : ∀ t ∈ planned (enables f l), Legal t.1 t.2 := by
    clear h
    revert f l
    decide +kernel
  refine ⟨?_, hlegal, fun hne t ht j _ k _ => (hlegal t ht).word (planned_ne_zero f l hfl hne t ht),
    ?_, ?_, ?_⟩ <;>
    clear h hlegal <;> revert f l <;> decide +kernel

/-! ## The transfers of a write -/

/-- One transfer on the pins. -/
structure Transfer where
  a : BitVec 32
  tsiz : BitVec 3
  d : BitVec 64

/-- The transfer takes byte lane `k` of its doubleword. -/
def Transfer.covers (t : Transfer) (k : ℕ) : Bool :=
  CacheMaster.covers (t.a.extractLsb' 0 3) t.tsiz k

/-- Byte lane `k`, the most significant byte first. -/
def byteLane (w : BitVec 64) (k : ℕ) : BitVec 8 := w.extractLsb' (56 - 8 * k) 8

/-- A beat of a request's write is taken. -/
def moves (s : State) (i : Input) : Bool :=
  s.state = .writeBeat && !s.actPush && i.pins.teaN && !i.pins.taN

/-- The beats taken of the last request accepted. -/
def moved (ts : List Transfer) (s : State) (i : Input) : List Transfer :=
  if !i.rstN then []
  else if !i.busCe then ts
  else if accepts s i then []
  else if moves s i then ts ++ [⟨(out s i).a, (out s i).tsiz, (out s i).d⟩] else ts

/-- A part of a single-beat write. -/
def part (q : Input) (second : Bool) : Transfer :=
  ⟨(attributes q second).a, (attributes q second).tsiz, q.reqData.setWidth 64⟩

/-- The parts of a single-beat write, in order. -/
def parts (q : Input) : List Transfer :=
  part q false :: if (planSingle q.reqBe).split then [part q true] else []

/-- The parts taken when the access has reached a part and has or has not ended it. -/
def stored (q : Input) (second ended : Bool) : List Transfer :=
  (if second then [part q false] else []) ++ if ended then [part q second] else []

/-- The tenure in progress has moved its data. -/
def ended (s : State) : Bool :=
  !s.actPush && (s.state = .dataRelease || s.state = .finish) && !s.err

/-- The registers against the beats taken of a single-beat write. -/
structure Stores (s : State) (l : Log) (ts : List Transfer) : Prop where
  held : s.rqValid = true → ts = stored l.req l.part (ended s)
  done : s.rqValid = false → ∀ e, l.written s = [e] →
    ts = stored l.req l.part (!e) ∧ (e = false → l.part = (planSingle l.req.reqBe).split) ∧
      (l.part = true → (planSingle l.req.reqBe).split = true)
  beat : s.state = .writeBeat → s.actPush = false → s.beat = 0 ∧ s.err = false

/-- The same of whatever request the log has. -/
def StoresInv (s : State) (l : Log) (ts : List Transfer) : Prop :=
  l.live = true → l.req.reqKind = kWriteSingle → Stores s l ts

section Step

variable {s : State} {i : Input} {l : Log} {ts : List Transfer}

theorem slots_idle (hr : i.rstN = true) (hb : i.busCe = true) (ha : accepts s i = false)
    (hs : s.state = .idle) : Slots s (step s i) ∧ (step s i).state ≠ .writeBeat ∧
      ended (step s i) = false := by
  have ht := (kept_taken ha).toSlots
  have hslots : ∀ s' : State, erase s' = erase { taken s i with
      actPush := s'.actPush, curA := s'.curA, curTt := s'.curTt, curTbstN := s'.curTbstN
      curTsiz := s'.curTsiz, curCiN := s'.curCiN, curWtN := s'.curWtN, curGblN := s'.curGblN
      curCse := s'.curCse, lastBeat := s'.lastBeat } → Slots s s' := by
    intro s' h
    have hf : ∀ {α : Type} (f : State → α), f (erase s') = f (erase _) := fun f => congrArg f h
    exact ⟨(hf State.rqValid).trans ht.valid, (hf State.rqKind).trans ht.kind,
      (hf State.rqTt).trans ht.tt, (hf State.rqAddr).trans ht.addr,
      (hf State.rqWimg).trans ht.wimg, (hf State.rqGbl).trans ht.gbl,
      (hf State.rqCse).trans ht.cse, (hf State.rqData).trans ht.data,
      (hf State.rqPlan).trans ht.plan, (hf State.rqPart).trans ht.part,
      (hf State.rqMerge).trans ht.merge, (hf State.fin).trans ht.fin,
      (hf State.rdValid).trans ht.rdValid, (hf State.wrDone).trans ht.wrDone⟩
  rw [step_bus hr hb]
  simp only [edge, hs]
  cases startPush s with
  | true => exact ⟨hslots _ rfl, by simp, by simp [ended]⟩
  | false =>
    cases startReq s i with
    | false => exact ⟨hslots _ rfl, by simp [hs], by simp [ended, hs]⟩
    | true =>
      cases badReq s with
      | true => exact ⟨hslots _ rfl, by simp, by simp [ended]⟩
      | false => exact ⟨hslots _ rfl, by simp, by simp [ended]⟩

/-- An edge that ends no tenure of a request keeps what its slot says. -/
theorem stores_quiet (h : Stores s l ts) (hr : i.rstN = true) (hb : i.busCe = true)
    (ha : accepts s i = false) (hk : Slots s (step s i)) (hc : continues s = false)
    (hm : moves s i = false) (he : ended (step s i) = ended s)
    (hbeat : (step s i).state = .writeBeat → (step s i).actPush = false →
      (step s i).beat = 0 ∧ (step s i).err = false) :
    Stores (step s i) (l.update s i) (moved ts s i) := by
  obtain ⟨hl, -, hw⟩ := quiet_step (l := l) hr hb ha hk hc
  have hts : moved ts s i = ts := by simp [moved, hr, hb, ha, hm]
  refine ⟨?_, ?_, hbeat⟩ <;> rw [hl.req, hl.part, hk.valid, hts]
  · rw [he]
    exact h.held
  · rw [hw]
    exact h.done

/-- An edge of a tenure of the push. -/
theorem stores_push (h : Stores s l ts) (hr : i.rstN = true) (hb : i.busCe = true)
    (hs : s.state ≠ .idle) (hp : s.actPush = true) (hreads : s.state.reads = false) :
    Stores (step s i) (l.update s i) (moved ts s i) := by
  have hk := kept_step (i := i) hr hb hs (fun _ => hp) fun hc => by simp [hc, Phase.reads] at hreads
  have hact := (curAttributes_step hr hb hs).1
  refine stores_quiet h hr hb (not_accepts hs) hk.toSlots (by simp [continues, hp])
    (by simp [moves, hp]) (by simp [ended, hact, hp]) fun _ hn => ?_
  rw [hact, hp] at hn
  contradiction

/-- An edge of a write that moves nothing and ends nothing. -/
theorem stores_wait (h : Stores s l ts) (hr : i.rstN = true) (hb : i.busCe = true)
    (hs : s.state ≠ .idle) (hf : s.state ≠ .finish) (hreads : s.state.reads = false)
    (hm : moves s i = false) (he : ended (step s i) = ended s)
    (hbeat : (step s i).state = .writeBeat → (step s i).beat = 0 ∧ (step s i).err = false) :
    Stores (step s i) (l.update s i) (moved ts s i) := by
  have hk := kept_step (i := i) hr hb hs (fun h => absurd h hf)
    fun hc => by simp [hc, Phase.reads] at hreads
  exact stores_quiet h hr hb (not_accepts hs) hk.toSlots (by simp [continues, hf]) hm he
    fun hw _ => hbeat hw

/-- A beat of a write. -/
theorem stores_beat (h : Stores s l ts) (hr : i.rstN = true) (hb : i.busCe = true)
    (hst : s.state = .writeBeat) (hp : s.actPush = false) (hw : Waiting s l) (hl : Loaded s l)
    (hkind : l.req.reqKind = kWriteSingle) :
    Stores (step s i) (l.update s i) (moved ts s i) := by
  obtain ⟨hbeat, herr⟩ := h.beat hst hp
  have hlast : s.lastBeat = 0 := by
    have := hl.last
    rw [beats, burstKind, hkind] at this
    exact BitVec.eq_of_toNat_eq (by simpa [kWriteSingle, kReadBurst, kWriteBurst] using this)
  have hs : s.state ≠ .idle := by simp [hst]
  have hf : s.state ≠ .finish := by simp [hst]
  have hreads : s.state.reads = false := by simp [hst, Phase.reads]
  cases hm : moves s i with
  | false =>
    have hgoes : ((step s i).state = .writeBeat ∧ (step s i).beat = 0 ∧ (step s i).err = false) ∨
        ((step s i).state = .dataRelease ∧ (step s i).err = true) := by
      simp only [moves, hst, hp, decide_true, Bool.not_false, Bool.true_and] at hm
      rw [step_bus hr hb]
      cases htea : i.pins.teaN <;> cases hta : i.pins.taN <;> simp_all [edge]
    rcases hgoes with ⟨hx, hgoes⟩ | ⟨hx, he⟩
    · exact stores_wait h hr hb hs hf hreads hm (by simp [ended, hx, hst]) fun _ => hgoes
    · exact stores_wait h hr hb hs hf hreads hm (by simp [ended, he, hst]) fun hn => by simp [hx] at hn
  | true =>
    have hpins : i.pins.teaN = true ∧ i.pins.taN = false := by
      simpa [moves, hst, hp] using hm
    have hk := kept_step (i := i) hr hb hs (fun h => absurd h hf)
      fun hc => by simp [hc, Phase.reads] at hreads
    obtain ⟨hlog, -, -⟩ := quiet_step (l := l) hr hb (not_accepts hs) hk.toSlots
      (by simp [continues, hf])
    have hstate : (step s i).state = .dataRelease ∧ (step s i).err = false := by
      rw [step_bus hr hb]
      simp [edge, hst, hpins, hbeat, hlast, herr]
    have hended : ended (step s i) = true := by
      simp [ended, hstate, hk.actPush, hp]
    have hbefore : ended s = false := by simp [ended, hst]
    have hpin : (⟨(out s i).a, (out s i).tsiz, (out s i).d⟩ : Transfer) = part l.req l.part := by
      have ha : s.curA = (attributes l.req l.part).a := congrArg Attributes.a hl.pins
      have hz : s.curTsiz = (attributes l.req l.part).tsiz := congrArg Attributes.tsiz hl.pins
      have hnot : s.rqKind ≠ kWriteBurst := by
        rw [hw.holds.kind, hkind]
        decide
      simp [out, part, ha, hz, hp, hnot, hw.holds.data]
    have hold := h.held hw.valid
    rw [hbefore, stored, if_neg Bool.false_ne_true, List.append_nil] at hold
    have hts : moved ts s i = ts ++ [part l.req l.part] := by
      rw [moved, hr, hb, not_accepts hs, hm, hpin]
      rfl
    refine ⟨fun _ => ?_, fun hv => ?_, fun hn => ?_⟩
    · rw [hts, hold, hended, hlog.req, hlog.part, stored, if_pos rfl]
    · rw [hk.valid, hw.valid] at hv
      contradiction
    · rw [hstate.1] at hn
      contradiction

/-- The end of a tenure of a write. -/
theorem stores_finish (h : Stores s l ts) (hr : i.rstN = true) (hb : i.busCe = true)
    (hst : s.state = .finish) (hp : s.actPush = false) (he : Ending s l)
    (hkind : l.req.reqKind = kWriteSingle) :
    Stores (step s i) (l.update s i) (moved ts s i) := by
  have hs : s.state ≠ .idle := by simp [hst]
  have hts : moved ts s i = ts := by simp [moved, hr, hb, not_accepts hs, moves, hst]
  have hold := h.held he.valid
  have hlog := update_bus (l := l) hr hb (not_accepts hs)
  have hnow : ended s = !s.err := by simp [ended, hp, hst]
  have hidle : (step s i).state = .idle := by
    rw [step_bus hr hb]
    simp [edge, hst]
  have hafter : ended (step s i) = false := by simp [ended, hidle]
  have hrq : s.rqKind = kWriteSingle := he.holds.kind.trans hkind
  rw [hnow] at hold
  have hsingle : curSingle s = true := by simp [curSingle, hp, hrq]
  have hread : curRead s = false := by simp [curRead, hrq, kWriteSingle, kReadBurst, kReadSingle]
  cases hc : continues s with
  | true =>
    have hcont := hc
    simp only [continues, Bool.and_eq_true, Bool.not_eq_true', decide_eq_true_eq] at hcont
    obtain ⟨⟨⟨-, hsplit⟩, hpart⟩, herr⟩ := hcont
    have hlp : l.part = false := he.part.symm.trans hpart
    have hvalid : (step s i).rqValid = true := by
      rw [step_bus hr hb]
      simp [edge, hst, finish, hp, hsingle, hsplit, hpart, herr,
        (kept_taken (not_accepts (i := i) hs)).valid, he.valid]
    refine ⟨fun _ => ?_, fun hv => by simp [hvalid] at hv, fun hn => by simp [hidle] at hn⟩
    rw [hts, hold, hafter, hlog, hc, hlp, herr]
    rfl
  | false =>
    have hnot : (curSingle s && s.rqPlan.split && !s.rqPart && !s.err) = false := by
      simpa [continues, hst, hp] using hc
    have hstep : (step s i).rqValid = false ∧ (step s i).wrDone = true ∧
        (step s i).wrError = s.err := by
      rw [step_bus hr hb]
      simp only [edge, hst, finish, hp, hnot, hread]
      simp
    refine ⟨fun hv => by simp [hstep] at hv, fun _ e hw => ?_, fun hn => by simp [hidle] at hn⟩
    have hwritten : e = s.err := by
      have : (l.update s i).written (step s i) = [s.err] := by
        rw [Log.written, hstep.2.1, hstep.2.2, hlog, he.written]
        rfl
      rw [this] at hw
      exact (List.singleton_inj.1 hw).symm
    have hsame : (l.update s i).req = l.req ∧ (l.update s i).part = l.part := by
      rw [hlog, hc]
      exact ⟨rfl, Bool.or_false _⟩
    rw [hts, hsame.1, hsame.2, hwritten]
    refine ⟨hold, fun herr => ?_, fun hpart => (he.first hpart).1⟩
    rw [hsingle, herr] at hnot
    rw [← he.holds.plan]
    cases hpart : l.part with
    | true => rw [he.holds.plan, (he.first hpart).1]
    | false =>
      rw [he.part, hpart] at hnot
      simpa using hnot.symm

/-- An edge of an address tenure, or of one that gives up or releases the bus. -/
theorem stores_tenure (h : Stores s l ts) (hr : i.rstN = true) (hb : i.busCe = true)
    (hs : s.state ≠ .idle) (hf : s.state ≠ .finish) (hw : s.state ≠ .writeBeat)
    (hreads : s.state.reads = false) (ho : Open s l) (hkind : l.req.reqKind = kWriteSingle)
    (hd : s.state = .dataRequest → s.beat = 0 ∧ s.err = false) (hp : s.actPush = false) :
    Stores (step s i) (l.update s i) (moved ts s i) := by
  have hrq : s.rqKind = kWriteSingle := ho.holds.kind.trans hkind
  have haddr : curAddrOnly s = false := by simp [curAddrOnly, hrq, kWriteSingle, kAddrOnly]
  have hm : moves s i = false := by simp [moves, hw]
  have hk := kept_step (i := i) hr hb hs (fun h => absurd h hf)
    fun hc => by simp [hc, Phase.reads] at hreads
  have hp' : (step s i).actPush = false := hk.actPush.trans hp
  cases hst : s.state with
  | idle => exact absurd hst hs
  | finish => exact absurd hst hf
  | writeBeat => exact absurd hst hw
  | readWait | readConfirm | readReplace => simp [hst, Phase.reads] at hreads
  | dataRequest =>
    obtain ⟨hbeat, herr⟩ := hd hst
    have hgoes : ((step s i).state = .dataRequest ∨ (step s i).state = .writeBeat ∨
        (step s i).state = .readWait) ∧ (step s i).beat = 0 ∧ (step s i).err = false := by
      rw [step_bus hr hb]
      cases hg : i.pins.dataGranted <;> cases hcw : curWrite s <;>
        simp [edge, hst, hg, hcw, hbeat, herr]
    refine stores_wait h hr hb hs hf hreads hm ?_ fun _ => hgoes.2
    rcases hgoes.1 with hx | hx | hx <;> simp [ended, hx, hst]
  | dataRelease =>
    have hgoes : (step s i).state = .finish ∧ (step s i).err = s.err := by
      rw [step_bus hr hb]
      simp [edge, hst]
    refine stores_wait h hr hb hs hf hreads hm ?_ fun hn => by simp [hgoes.1] at hn
    simp [ended, hgoes, hst, hp, hp']
  | addrAbort =>
    have hgoes : (step s i).state = .finish ∧ (step s i).err = true := by
      rw [step_bus hr hb]
      simp [edge, hst]
    refine stores_wait h hr hb hs hf hreads hm ?_ fun hn => by simp [hgoes.1] at hn
    simp [ended, hgoes, hst]
  | _ =>
    have hgoes : (step s i).state ≠ .writeBeat ∧ (step s i).state ≠ .dataRelease ∧
        (step s i).state ≠ .finish := by
      rw [step_bus hr hb]
      simp only [edge, hst, haddr]
      (try split_ifs) <;> simp_all
    refine stores_wait h hr hb hs hf hreads hm ?_ fun hn => absurd hn hgoes.1
    simp [ended, hgoes, hst]

/-- **A clock edge keeps the account of a single-beat write.** -/
theorem storesInv_step (hinv : Inv s l) (h : StoresInv s l ts) :
    StoresInv (step s i) (l.update s i) (moved ts s i) := by
  cases hr : i.rstN with
  | false =>
    intro hlive
    simp [Log.update, hr, Log.start] at hlive
  | true =>
    cases hb : i.busCe with
    | false =>
      have hstep : step s i = { s with slow := true } := by simp [step, hr, hb]
      have hlog : l.update s i = l := by simp [Log.update, hr, hb]
      have hts : moved ts s i = ts := by simp [moved, hr, hb]
      rw [hstep, hlog, hts]
      intro hlive hkind
      have hs := h hlive hkind
      exact ⟨hs.held, hs.done, hs.beat⟩
    | true =>
      cases ha : accepts s i with
      | true =>
        obtain ⟨hs, hv, hpu⟩ := accepts_spec ha
        have hlog : l.update s i = ⟨true, i, false, [], [], [], [], false, false⟩ := by
          simp [Log.update, hr, hb, ha]
        have hts : moved ts s i = [] := by simp [moved, hr, hb, ha]
        have hstep : (step s i).state = .idle ∧ (step s i).rqValid = true := by
          have ha' : (i.reqValid && reqReady s i) = true := ha
          rw [step_bus hr hb]
          simp only [edge, hs, startPush, startReq, hv, hpu]
          simp only [taken, ha']
          split_ifs <;> simp_all
        intro _ _
        refine ⟨fun _ => ?_, fun hn => by simp [hstep] at hn, fun hn => by simp [hstep] at hn⟩
        rw [hlog, hts]
        simp [stored, ended, hstep]
      | false =>
        have hlog := update_bus (l := l) hr hb ha
        intro hlive hkind
        have hl : l.live = true := by
          rw [hlog] at hlive
          exact hlive
        have hk : l.req.reqKind = kWriteSingle := by
          rw [hlog] at hkind
          exact hkind
        have hs := h hl hk
        by_cases hidle : s.state = .idle
        · obtain ⟨hslots, hx, he⟩ := slots_idle hr hb ha hidle
          exact stores_quiet hs hr hb ha hslots (by simp [continues, hidle])
            (by simp [moves, hidle]) (by rw [he]; simp [ended, hidle]) fun hn => absurd hn hx
        · cases hp : s.actPush with
          | true =>
            have hrest := hinv
            rw [Inv, if_neg hidle, if_pos hp] at hrest
            exact stores_push hs hr hb hidle hp hrest.2
          | false =>
            have hact := active_of_inv hinv hidle hp
            have ho := (open_of_inv hinv hidle hp).1
            have hread : readKind l.req = false := by
              simp [readKind, hk, kWriteSingle, kReadBurst, kReadSingle]
            cases hst : s.state with
            | idle => exact absurd hst hidle
            | finish =>
              rw [hst] at hact
              exact stores_finish hs hr hb hst hp hact hk
            | writeBeat =>
              rw [hst] at hact
              exact stores_beat hs hr hb hst hp hact.1 hact.2.1 hk
            | readWait | readConfirm | readReplace =>
              rw [hst] at hact
              have := hact.read
              rw [hread] at this
              contradiction
            | dataRequest =>
              rw [hst] at hact
              exact stores_tenure hs hr hb hidle (by simp [hst]) (by simp [hst])
                (by simp [hst, Phase.reads]) ho hk (fun _ => ⟨hact.1.beat, hact.1.err⟩) hp
            | _ =>
              exact stores_tenure hs hr hb hidle (by simp [hst]) (by simp [hst])
                (by simp [hst, Phase.reads]) ho hk (fun hn => by simp [hst] at hn) hp

end Step

/-- The beats taken in a run. -/
def movedLog (r : Run machine) (n : ℕ) : List Transfer := r.history [] moved n

theorem storesInv_run (r : Run machine) (n : ℕ) :
    StoresInv (r.state n) (log r n) (movedLog r n) := by
  induction n with
  | zero => exact fun hlive => by simp [log, Log.start] at hlive
  | succ n ih => exact storesInv_step (inv_run r n) ih

/-! ## Memory -/

/-- The doubleword of an address. -/
def aligned (a : BitVec 32) : BitVec 32 := a &&& ~~~7

/-- The byte lane of an address. -/
def laneOf (x : BitVec 32) : ℕ := (x.extractLsb' 0 3).toNat

theorem laneOf_lt (x : BitVec 32) : laneOf x < 8 := (x.extractLsb' 0 3).isLt

/-- The byte at `x` is in the doubleword of `a` and enabled. -/
def enabled (a : BitVec 32) (be : BitVec 8) (x : BitVec 32) : Bool :=
  aligned x = aligned a && be.getLsbD (7 - laneOf x)

/-- The transfer has the byte at `x`. -/
def Transfer.has (t : Transfer) (x : BitVec 32) : Bool :=
  aligned x = aligned t.a && t.covers (laneOf x)

/-- A memory once it has taken a transfer. -/
def Transfer.store (t : Transfer) (mem : BitVec 32 → BitVec 8) (x : BitVec 32) : BitVec 8 :=
  if t.has x then byteLane t.d (laneOf x) else mem x

/-- A memory once it has taken some. -/
def storeAll (ts : List Transfer) (mem : BitVec 32 → BitVec 8) : BitVec 32 → BitVec 8 :=
  ts.foldl (fun m t => t.store m) mem

section Single

variable {q : Input}

/-- The kinds of a single-beat access. -/
def singleKind (q : Input) : Prop := q.reqKind = kReadSingle ∨ q.reqKind = kWriteSingle

theorem getLsbD_aligned (a : BitVec 32) (j : ℕ) :
    (aligned a).getLsbD j = (a.getLsbD j && decide (3 ≤ j)) := by
  have hmask : ∀ j < 32, (~~~(7 : BitVec 32)).getLsbD j = decide (3 ≤ j) := by decide
  rw [aligned, BitVec.getLsbD_and]
  by_cases hj : j < 32
  · rw [hmask j hj]
  · simp [BitVec.getLsbD_of_ge a j (by omega)]

theorem aligned_or_setWidth (a : BitVec 32) (off : BitVec 3) :
    aligned (aligned a ||| off.setWidth 32) = aligned a ∧
      (aligned a ||| off.setWidth 32).extractLsb' 0 3 = off := by
  constructor
  · refine BitVec.eq_of_getLsbD_eq fun j hj => ?_
    simp only [getLsbD_aligned, BitVec.getLsbD_or, BitVec.getLsbD_setWidth]
    by_cases h3 : 3 ≤ j
    · simp [h3]
    · simp [h3]
  · refine BitVec.eq_of_getLsbD_eq fun j hj => ?_
    simp only [BitVec.getLsbD_extractLsb', BitVec.getLsbD_or, getLsbD_aligned,
      BitVec.getLsbD_setWidth, Nat.zero_add]
    simp [hj, show j < 32 by omega, show ¬3 ≤ j by omega]

/-- Each part has its transfer of the plan. -/
theorem attributes_single (h : singleKind q) (second : Bool) :
    (attributes q second).a =
        aligned q.reqAddr ||| (if second then 4 else (planSingle q.reqBe).off0).setWidth 32 ∧
      (attributes q second).tsiz =
        if second then (planSingle q.reqBe).siz1 else (planSingle q.reqBe).siz0 := by
  have hb : burstKind q = false := by
    rcases h with h | h <;> simp [burstKind, h, kReadSingle, kWriteSingle, kReadBurst, kWriteBurst]
  have hr : q.reqKind ≠ kReadBurst := by
    rcases h with h | h <;> rw [h] <;> decide
  have ha : q.reqKind ≠ kAddrOnly := by
    rcases h with h | h <;> rw [h] <;> decide
  simp [attributes, hb, hr, ha, aligned]

/-- A part has the bytes of its transfer. -/
theorem part_has (h : singleKind q) (second : Bool) (x : BitVec 32) :
    (part q second).has x = (decide (aligned x = aligned q.reqAddr) &&
      covers (if second then 4 else (planSingle q.reqBe).off0)
        (if second then (planSingle q.reqBe).siz1 else (planSingle q.reqBe).siz0) (laneOf x)) := by
  obtain ⟨ha, hz⟩ := attributes_single h second
  obtain ⟨h0, h1⟩ := aligned_or_setWidth q.reqAddr (if second then 4 else (planSingle q.reqBe).off0)
  rw [Transfer.has, Transfer.covers, part, ha, hz, h0, h1]

/-- The parts together have the enabled bytes. -/
theorem any_parts_has (h : singleKind q) (hc : Contiguous q.reqBe) (x : BitVec 32) :
    ((parts q).any fun t => t.has x) = enabled q.reqAddr q.reqBe x := by
  have hl := (planCovers hc).lanes (laneOf x) (laneOf_lt x)
  rw [enabled, hl, parts, planned]
  cases hs : (planSingle q.reqBe).split with
  | false => simp [part_has h]
  | true =>
    simp only [List.any_cons, List.any_nil, Bool.or_false, part_has h, if_true, if_false,
      Bool.false_eq_true]
    cases decide (aligned x = aligned q.reqAddr) <;> simp

end Single

/-- The parts of a write put the request's bytes on the enabled lanes. -/
theorem storeAll_parts {q : Input} (h : singleKind q) (hc : Contiguous q.reqBe)
    (mem : BitVec 32 → BitVec 8) (x : BitVec 32) : storeAll (parts q) mem x =
      if enabled q.reqAddr q.reqBe x then byteLane (q.reqData.setWidth 64) (laneOf x)
      else mem x := by
  rw [← any_parts_has h hc, storeAll, parts]
  cases (planSingle q.reqBe).split with
  | false => simp [Transfer.store, part]
  | true =>
    simp only [if_true, List.foldl_cons, List.foldl_nil, List.any_cons, List.any_nil,
      Bool.or_false, Transfer.store]
    cases (part q true).has x <;> cases (part q false).has x <;> simp [part]

/-- So do those taken, on some of them. -/
theorem storeAll_stored {q : Input} (h : singleKind q) (hc : Contiguous q.reqBe)
    {second ended : Bool} (hs : second = true → (planSingle q.reqBe).split = true)
    (mem : BitVec 32 → BitVec 8) (x : BitVec 32) :
    storeAll (stored q second ended) mem x = mem x ∨
      (enabled q.reqAddr q.reqBe x = true ∧ storeAll (stored q second ended) mem x =
        byteLane (q.reqData.setWidth 64) (laneOf x)) := by
  have hhas : ∀ p, (p = true → (planSingle q.reqBe).split = true) → (part q p).has x = true →
      enabled q.reqAddr q.reqBe x = true := by
    intro p hp hx
    rw [← any_parts_has h hc, parts]
    cases p with
    | false => simp [hx]
    | true => simp [hp rfl, hx]
  have h0 := hhas false (by simp)
  have h1 := hhas second hs
  have hd : ∀ p, (part q p).d = q.reqData.setWidth 64 := fun _ => rfl
  cases second <;> cases ended <;>
    simp only [stored, storeAll, Transfer.store, hd, if_true, if_false, Bool.false_eq_true,
      List.nil_append, List.append_nil, List.cons_append, List.foldl_nil, List.foldl_cons]
  · exact .inl trivial
  · cases hx : (part q false).has x with
    | false => exact .inl (by simp)
    | true => exact .inr ⟨h0 hx, by simp⟩
  · cases hx : (part q false).has x with
    | false => exact .inl (by simp)
    | true => exact .inr ⟨h0 hx, by simp⟩
  · cases hx : (part q true).has x with
    | true => exact .inr ⟨h1 hx, by simp⟩
    | false =>
      cases hx : (part q false).has x with
      | false => exact .inl (by simp)
      | true => exact .inr ⟨h0 hx, by simp⟩

/-- The data tenure of a part of a read. -/
def tenure (l : Log) (second : Bool) : List (Answer (BitVec 64)) :=
  if (planSingle l.req.reqBe).split then (if second then l.edges else l.first)
  else if second then [] else l.edges

/-- A word that has the bytes of a memory on the lanes of a part. -/
def Shows (q : Input) (second : Bool) (mem : BitVec 32 → BitVec 8) (w : BitVec 64) : Prop :=
  ∀ x, (part q second).has x = true → byteLane w (laneOf x) = mem x

/-- The first of two parts ends with its word. -/
theorem covers_first {be : BitVec 8} (hc : Contiguous be) (hs : (planSingle be).split = true)
    {k : ℕ} (hk : k < 8) (h : covers (planSingle be).off0 (planSingle be).siz0 k = true) : k < 4 := by
  obtain ⟨f, l, hfl, rfl⟩ := hc.eq_enables
  clear hc
  revert f l k
  decide +kernel

/-- A word of two parts has the lanes of each. -/
theorem byteLane_merge (v w : BitVec 64) {k : ℕ} (hk : k < 8) :
    byteLane (v.extractLsb' 32 32 ++ w.extractLsb' 0 32) k =
      if 4 ≤ k then byteLane w k else byteLane v k := by
  have happ : ∀ n, (v.extractLsb' 32 32 ++ w.extractLsb' 0 32 : BitVec 64).getLsbD n =
      if n < 32 then (w.extractLsb' 0 32).getLsbD n else (v.extractLsb' 32 32).getLsbD (n - 32) :=
    fun n => BitVec.getLsbD_append
  refine BitVec.eq_of_getLsbD_eq fun j hj => ?_
  by_cases h4 : 4 ≤ k
  · have hlow : 56 - 8 * k + j < 32 := by omega
    simp [byteLane, h4, hj, happ, hlow]
  · have hhigh : ¬56 - 8 * k + j < 32 := by omega
    have hadd : 32 + (56 - 8 * k + j - 32) = 56 - 8 * k + j := by omega
    have hlt : 56 - 8 * k + j - 32 < 32 := by omega
    simp [byteLane, h4, hj, happ, hhigh, hadd, hlt]

/-- **A read returns the memory bytes of the enabled lanes.** -/
theorem reads_memory {l : Log} {v : BitVec 64} (hk : l.req.reqKind = kReadSingle)
    (hc : Contiguous l.req.reqBe) (hv : Single l v) {mem : Bool → BitVec 32 → BitVec 8}
    (hmem : ∀ p, ∀ w ∈ standing (tenure l p), Shows l.req p (mem p) w) {x : BitVec 32}
    (hx : enabled l.req.reqAddr l.req.reqBe x = true) :
    byteLane v (laneOf x) = mem ((planSingle l.req.reqBe).split && 4 ≤ laneOf x) x := by
  have hany := hx
  rw [← any_parts_has (.inl hk) hc, parts] at hany
  cases hs : (planSingle l.req.reqBe).split with
  | false =>
    have hhas : (part l.req false).has x = true := by simpa [hs] using hany
    have hw : standing (tenure l false) = [v] := by
      rw [Single, hs] at hv
      simpa [tenure, hs] using hv
    exact hmem false v (by simp [hw]) x hhas
  | true =>
    rw [Single, hs, if_pos rfl] at hv
    obtain ⟨w₀, w₁, h₀, h₁, rfl⟩ := hv
    have hm₀ := hmem false w₀ (by simp [tenure, hs, h₀])
    have hm₁ := hmem true w₁ (by simp [tenure, hs, h₁])
    have hlow : (part l.req false).has x = true → laneOf x < 4 := by
      intro hhas
      rw [part_has (.inl hk)] at hhas
      simp only [Bool.and_eq_true, if_false, Bool.false_eq_true] at hhas
      exact covers_first hc hs (laneOf_lt x) hhas.2
    have hhigh : (part l.req true).has x = true → 4 ≤ laneOf x := by
      intro hhas
      rw [part_has (.inl hk)] at hhas
      simp only [Bool.and_eq_true, if_true, covers, decide_eq_true_eq] at hhas
      exact hhas.2.1
    have hcases : (part l.req false).has x = true ∨ (part l.req true).has x = true := by
      simpa [hs] using hany
    rw [byteLane_merge w₀ w₁ (laneOf_lt x)]
    rcases hcases with hhas | hhas
    · have h4 : ¬4 ≤ laneOf x := by
        have := hlow hhas
        omega
      simp [h4, hm₀ x hhas]
    · simp [hhigh hhas, hm₁ x hhas]

/-! ## Over a run -/

/-- What a single-beat access does, against the log of its request and the beats it has put
on the bus. -/
structure SingleBeats (s : State) (i : Input) (l : Log) (ts : List Transfer) : Prop where
  /-- Each address tenure is that of a transfer of the plan. -/
  pins : addrOwned s i = true → s.actPush = false →
    (out s i).a = (part l.req l.part).a ∧ (out s i).tsiz = (part l.req l.part).tsiz
  /-- A read that ends well has the bytes that memory had in the tenure of each part. -/
  read : l.live = true → l.req.reqKind = kReadSingle → Contiguous l.req.reqBe →
    s.rqValid = false → (∃ v, l.given s = [(false, v)] ∧
      ∀ mem : Bool → BitVec 32 → BitVec 8,
        (∀ p, ∀ w ∈ standing (tenure l p), Shows l.req p (mem p) w) →
        ∀ x, enabled l.req.reqAddr l.req.reqBe x = true →
          byteLane v (laneOf x) = mem ((planSingle l.req.reqBe).split && 4 ≤ laneOf x) x) ∨
      (l.given s = [(true, 0)] ∧ Failed l)
  /-- A write puts the request's bytes on enabled lanes only. -/
  write : l.live = true → l.req.reqKind = kWriteSingle → Contiguous l.req.reqBe →
    (s.rqValid = false → ∃ e, l.written s = [e]) ∧
      ∀ (mem : BitVec 32 → BitVec 8) (x : BitVec 32), storeAll ts mem x = mem x ∨
        (enabled l.req.reqAddr l.req.reqBe x = true ∧
          storeAll ts mem x = byteLane (l.req.reqData.setWidth 64) (laneOf x))
  /-- One that ends well puts them on every enabled lane, once. -/
  written : l.live = true → l.req.reqKind = kWriteSingle → Contiguous l.req.reqBe →
    s.rqValid = false → l.written s = [false] → ts = parts l.req ∧
      ∀ (mem : BitVec 32 → BitVec 8) (x : BitVec 32), storeAll ts mem x =
        if enabled l.req.reqAddr l.req.reqBe x then byteLane (l.req.reqData.setWidth 64) (laneOf x)
        else mem x

theorem stored_parts (q : Input) : stored q (planSingle q.reqBe).split true = parts q := by
  cases h : (planSingle q.reqBe).split <;> simp [stored, parts, h]

/-- What a write has put on the bus at any time. -/
theorem moved_stored {s : State} {l : Log} {ts : List Transfer} (hinv : Inv s l)
    (hst : StoresInv s l ts) (hlive : l.live = true) (hk : l.req.reqKind = kWriteSingle) :
    ∃ p e, ts = stored l.req p e ∧ (p = true → (planSingle l.req.reqBe).split = true) := by
  have h := hst hlive hk
  cases hv : s.rqValid with
  | true => exact ⟨_, _, h.held hv, fun hp => ((open_of_valid hinv hv).1.first hp).1⟩
  | false =>
    have hrest := resting_of_free hinv hv
    rw [if_pos hlive] at hrest
    have hread : readKind l.req = false := by
      simp [readKind, hk, kWriteSingle, kReadBurst, kReadSingle]
    obtain ⟨e, he⟩ := (hrest.1.other hread).2
    obtain ⟨hts, -, hp⟩ := h.done hv e he
    exact ⟨_, _, hts, hp⟩

theorem singleBeats_of_inv {s : State} {l : Log} {p : PushLog} {ts : List Transfer}
    (hinv : Inv s l) (hpush : PushInv s p) (hst : StoresInv s l ts) (i : Input) :
    SingleBeats s i l ts where
  pins ho hp := by
    have hpins := pins_of_inv hinv hpush i ho
    rw [hp, if_neg Bool.false_ne_true] at hpins
    exact ⟨congrArg Attributes.a hpins, congrArg Attributes.tsiz hpins⟩
  read hlive hk hc hv := by
    have hrest := resting_of_free hinv hv
    rw [if_pos hlive] at hrest
    rcases (hrest.1.single hk).2 with ⟨v, hg, hs⟩ | hf
    · exact .inl ⟨v, hg, fun mem hmem x hx => reads_memory hk hc hs hmem hx⟩
    · exact .inr hf
  write hlive hk hc := by
    have hread : readKind l.req = false := by
      simp [readKind, hk, kWriteSingle, kReadBurst, kReadSingle]
    refine ⟨fun hv => ?_, fun mem x => ?_⟩
    · have hrest := resting_of_free hinv hv
      rw [if_pos hlive] at hrest
      exact (hrest.1.other hread).2
    · obtain ⟨p, e, hts, hp⟩ := moved_stored hinv hst hlive hk
      rw [hts]
      exact storeAll_stored (.inr hk) hc hp mem x
  written hlive hk hc hv hw := by
    obtain ⟨hts, hp, -⟩ := (hst hlive hk).done hv false hw
    have hall : ts = parts l.req := by
      rw [hts, hp rfl]
      exact stored_parts l.req
    refine ⟨hall, fun mem x => ?_⟩
    rw [hall]
    exact storeAll_parts (.inr hk) hc mem x

/-- **Single-beat accesses.**  The transfers of a plan are legal and have exactly the enabled
bytes, and over any run, with any retries, pushes and errors, a read that ends well has the
memory's bytes on every enabled lane, and a write puts the request's on enabled lanes only and,
when it ends well, on all of them. -/
theorem singleBeats :
    (∀ be : BitVec 8, Contiguous be → PlanCovers be) ∧
      ∀ (r : Run machine) (n : ℕ),
        SingleBeats (r.state n) (r.input n) (log r n) (movedLog r n) :=
  ⟨fun _ => planCovers, fun r n =>
    singleBeats_of_inv (inv_run r n) (pushInv_run r n) (storesInv_run r n) (r.input n)⟩

end CacheMaster
end Bus
end SloPPC603
