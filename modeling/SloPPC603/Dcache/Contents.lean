import SloPPC603.Dcache.Bytes
import SloPPC603.Dcache.Operation
import SloPPC603.Dcache.Snoop

/-!
# Where the data of a line is

With no snoops the cache and the bus share one memory between them.  Its contents
are in the way that holds a line; where no way holds it modified they are in the
memory behind the bus too, or in the castout buffer on the way there.  Only the
line of the operation in progress is between two states, and `InPlace` and
`ComingIn` say which of its words have changed.

* `Bus`, `backing` — the memory behind the cache.
* `performed`, `contents` — the memory as the operations have left it.
* `ContentsInv`, `contentsInv_step` — where its words are.
-/

namespace SloPPC603
namespace Dcache

open Clocked

variable {cfg : Config} {s : State} {i : Input}

/-! ## Behind the cache -/

/-- The memory of the bus with the writes it has accepted, and the read it last
accepted with the beats it has brought. -/
structure Bus where
  mem : ℕ → ℕ → BitVec 64
  burst : Bool
  addr : BitVec 32
  be : BitVec 8
  beat : ℕ

/-- The bus takes a request: it performs them in the order it takes them. -/
def Bus.accept (b : Bus) (s : State) : Bus :=
  match busReqKind s with
  | .writeBurst =>
    { b with mem := fun line d =>
        if line = lineOf (busReqAddr s) ∧ d < 4 then busReqData s d else b.mem line d }
  | .writeSingle =>
    { b with mem := fun line d =>
        if line = lineOf (busReqAddr s) ∧ d = dwOf (busReqAddr s) then
          mergeBytes (busReqBe s) (busReqData s 3) (b.mem line d)
        else b.mem line d }
  | .readBurst => { b with burst := true, addr := busReqAddr s, be := busReqBe s, beat := 0 }
  | .readSingle => { b with burst := false, addr := busReqAddr s, be := busReqBe s, beat := 0 }
  | .addrOnly => b

/-- The bus after an edge. -/
def Bus.update (b : Bus) (s : State) (i : Input) : Bus :=
  if busAccept s i then b.accept s
  else if i.busRdValid then { b with beat := b.beat + 1 }
  else b

/-- A beat brings what the memory holds: of a burst the double words from the
critical one on, of a single read the bytes asked for. -/
structure BusReads (b : Bus) (i : Input) : Prop where
  burst : i.busRdValid = true → b.burst = true →
    i.busRdData = b.mem (lineOf b.addr) ((dwOf b.addr + b.beat) % 4)
  single : i.busRdValid = true → b.burst = false → ∀ k < 8, b.be.getLsbD k = true →
    lane k i.busRdData = lane k (b.mem (lineOf b.addr) (dwOf b.addr))

/-- The memory behind the ways: a line in the castout buffer is on its way there. -/
def backing (t : Traffic) (b : Bus) (line d : ℕ) : BitVec 64 :=
  match t.castout with
  | some c => if line = c.line then c.data d else b.mem line d
  | none => b.mem line d

/-! ## What the operations have left -/

/-- The memory after the operation in progress has been performed. -/
def performed (s : State) (v : ℕ → ℕ → BitVec 64) (line d : ℕ) : BitVec 64 :=
  if (s.reqOp = .store ∨ s.reqOp = .stwcx) ∧ line = reqLine s ∧ d = reqDw s then
    mergeBytes s.reqBe s.reqWdata (v line d)
  else if s.reqOp = .dcbz ∧ line = reqLine s then 0
  else v line d

/-- The memory after an edge: an operation is performed by the edge that ends it. -/
def contentsNext (cfg : Config) (s : State) (i : Input) (v : ℕ → ℕ → BitVec 64) :
    ℕ → ℕ → BitVec 64 :=
  if stepAnswers s i || lkFastStDone cfg s i then performed s v else v

theorem performed_of_reads {v : ℕ → ℕ → BitVec 64} (h : ¬ Writes s.reqOp) : performed s v = v := by
  unfold Writes at h
  push Not at h
  funext line d
  simp [performed, h]

theorem performed_of_ne {v : ℕ → ℕ → BitVec 64} {line : ℕ} (h : line ≠ reqLine s) :
    performed s v line = v line := by
  funext d
  simp [performed, h]

/-- The request registers over an edge that takes no request. -/
theorem request_running (hacc : reqAccept cfg s i = false) :
    (running cfg s i).reqOp = s.reqOp ∧ (running cfg s i).reqAddr = s.reqAddr ∧
      (running cfg s i).reqBe = s.reqBe ∧ (running cfg s i).reqWdata = s.reqWdata := by
  simp [running, hacc]

theorem performed_running {v : ℕ → ℕ → BitVec 64} (hacc : reqAccept cfg s i = false) :
    performed (running cfg s i) v = performed s v := by
  obtain ⟨hop, haddr, hbe, hdata⟩ := @request_running cfg s i hacc
  funext line d
  unfold performed reqLine reqDw
  rw [hop, haddr, hbe, hdata]

theorem contentsNext_of_ne {v : ℕ → ℕ → BitVec 64} {line : ℕ} (h : line ≠ reqLine s) :
    contentsNext cfg s i v line = v line := by
  unfold contentsNext
  split_ifs
  · exact performed_of_ne h
  · rfl

/-! ## The line of the operation in progress -/

/-- The words of a line as a store leaves them, or is about to. -/
def Stored (s : State) (v : ℕ → ℕ → BitVec 64) (x : ℕ → BitVec 64) : Prop :=
  ∀ d < 4, if d = reqDw s then
      mergeBytes s.reqBe s.reqWdata (x d) = mergeBytes s.reqBe s.reqWdata (v (reqLine s) d)
    else x d = v (reqLine s) d

/-- The words of the request's line in the way that holds it. -/
def InPlace (s : State) (v : ℕ → ℕ → BitVec 64) (x : ℕ → BitVec 64) : Prop :=
  match s.state with
  | .zero => ∀ d < 4, x d = if d < s.stepIdx then 0 else v (reqLine s) d
  | .storeWrite => Stored s v x
  | .swriteReq => ∀ d < 4, x d = performed s v (reqLine s) d
  | _ => ∀ d < 4, x d = v (reqLine s) d

/-- The words of the request's line in the way it is coming into. -/
def ComingIn (s : State) (v : ℕ → ℕ → BitVec 64) (x : ℕ → BitVec 64) : Prop :=
  match s.state with
  | .fillWait =>
    ∀ k < s.stepIdx, x ((reqDw s + k) % 4) = v (reqLine s) ((reqDw s + k) % 4)
  | .zero => ∀ d < s.stepIdx, x d = 0
  | .storeWrite => Stored s v x
  | .install => ∀ d < 4, x d = performed s v (reqLine s) d
  | _ => True

/-- **Where the memory is**: in the way that holds a line, behind it where the line
is not modified, and for the line of the operation in progress as far as that has
come. -/
structure ContentsInv (cfg : Config) (s : State) (t : Traffic) (b : Bus)
    (v : ℕ → ℕ → BitVec 64) : Prop where
  held : ∀ w < cfg.wayCount, ∀ line, holds cfg s w line →
    if line = reqLine s then InPlace s v (lineWords cfg s w line)
    else ∀ d < 4, lineWords cfg s w line d = v line d
  backed : ∀ line, (∀ w < cfg.wayCount, ¬ holdsDirty cfg s w line) →
    ∀ d < 4, backing t b line d = v line d
  comingIn : phaseOf s.state ≠ none → s.plan.install = true →
    ComingIn s v (lineWords cfg s s.way (reqLine s))
  absent : phaseOf s.state ≠ none →
    (s.plan.sread = true ∨
      (s.plan.swrite = true ∧ s.plan.store = false ∧ s.state ≠ .swriteReq)) →
    ∀ w < cfg.wayCount, ¬ holds cfg s w (reqLine s)
  modified : phaseOf s.state ≠ none → s.plan.install = false →
    (s.plan.zero = true ∨ (s.plan.store = true ∧ s.plan.swrite = false)) →
    holdsDirty cfg s s.way (reqLine s)
  bound : ∀ w line, holds cfg s w line → line < 2 ^ 27
  captured : ∀ c, t.castout = some c → c.line < 2 ^ 27
  burst : s.state = .fillWait → b.burst = true ∧ lineOf b.addr = reqLine s ∧
    dwOf b.addr = reqDw s ∧ b.beat = s.stepIdx
  single : s.state = .sreadWait → b.burst = false ∧ lineOf b.addr = reqLine s ∧
    dwOf b.addr = reqDw s ∧ b.be = s.reqBe

/-! ## The lists of plans, decided -/

theorem left_clear : ∀ op, ∀ p ∈ leftPlans op, firstStep p = .cobRead ∨ firstStep p = .addrReq →
    (firstStep p.rest = .idle → ¬ Writes op) ∧
    (firstStep p.rest = .swriteReq → p.swrite = true ∧ p.store = false) ∧
    firstStep p.rest ≠ .install ∧ (p.install = true → firstStep p.rest ≠ .storeWrite) := by
  intro op
  cases op <;> decide

theorem left_fill : ∀ op, ∀ p ∈ leftPlans op, firstStep p = .fillReq → p.install = true ∧
    ((firstStep p.rest = .install ∧ ¬ Writes op) ∨
      (firstStep p.rest = .storeWrite ∧ (op = .store ∨ op = .stwcx))) := by
  intro op
  cases op <;> decide

theorem left_sread : ∀ op, ∀ p ∈ leftPlans op, firstStep p = .sreadReq →
    p.sread = true ∧ (op = .load ∨ op = .lwarx) ∧ firstStep p.rest = .idle := by
  intro op
  cases op <;> decide

theorem left_zero : ∀ op, ∀ p ∈ leftPlans op, firstStep p = .zero → op = .dcbz ∧
    firstStep p.rest = (if p.install then .install else .idle) := by
  intro op
  cases op <;> decide

theorem left_store : ∀ op, ∀ p ∈ leftPlans op, firstStep p = .storeWrite →
    (op = .store ∨ op = .stwcx) ∧ firstStep p.rest =
      (if p.swrite then .swriteReq else if p.install then .install else .idle) := by
  intro op
  cases op <;> decide

theorem left_swrite : ∀ op, ∀ p ∈ leftPlans op, firstStep p = .swriteReq →
    (op = .store ∨ op = .stwcx) ∧ firstStep p.rest = .idle := by
  intro op
  cases op <;> decide

theorem left_install : ∀ op, ∀ p ∈ leftPlans op, firstStep p = .install →
    firstStep p.rest = .idle := by
  intro op
  cases op <;> decide

/-- What is left of a plan has in it only what the plan had. -/
theorem left_kept : ∀ op, ∀ p ∈ leftPlans op,
    (p.rest.install = false → p.rest.zero = true ∨ (p.rest.store = true ∧ p.rest.swrite = false) →
      p.install = false ∧ (p.zero = true ∨ (p.store = true ∧ p.swrite = false))) ∧
    (p.rest.sread = true ∨ (p.rest.swrite = true ∧ p.rest.store = false ∧
        firstStep p.rest ≠ .swriteReq) →
      p.sread = true ∨ (p.swrite = true ∧ p.store = false ∧ firstStep p ≠ .swriteReq)) := by
  intro op
  cases op <;> decide

/-! ## What an edge writes -/

theorem words_running (w d : ℕ) : lineWords cfg (running cfg s i) w (reqLine s) d =
    if dataWayWe cfg s i w = true ∧ d = dataWdw s i then
      mergeBytes (dataBe cfg s i) (dataWdata cfg s i) (lineWords cfg s w (reqLine s) d)
    else lineWords cfg s w (reqLine s) d := by
  show nextDataRam cfg s i w (cfg.setOf (reqLine s)) d = _
  unfold nextDataRam
  simp only [reqSet, true_and, lineWords]

/-- Only an operation's own step writes the data array, or a fast store. -/
theorem words_still (hst : s.state ≠ .fillWait ∧ s.state ≠ .zero ∧ s.state ≠ .storeWrite)
    (hfast : lkFastSt cfg s i = false) (w line d : ℕ) :
    lineWords cfg (running cfg s i) w line d = lineWords cfg s w line d := by
  apply dataRam_kept
  simp [dataWayWe, fillBeat, hst, hfast]

theorem lkFastSt_of_state (h : s.state ≠ .lookup) : lkFastSt cfg s i = false := by
  simp [lkFastSt, h]

/-- The line of a way is kept from the operation in progress unless it is its own. -/
theorem words_other (ha : ArrayInv cfg s) {w line : ℕ} (hw : w < cfg.wayCount)
    (hh : holds cfg s w line) (hne : line ≠ reqLine s) (d : ℕ) :
    lineWords cfg (running cfg s i) w line d = lineWords cfg s w line d := by
  apply dataRam_kept
  rintro ⟨hwe, hset⟩
  have hsame : holds cfg s w (reqLine s) → False := by
    intro hr
    refine hne ((@line_eq_iff cfg _ _).2 ⟨hset, ?_⟩)
    have htag := hh.2
    rw [hset] at htag
    exact htag.symm.trans hr.2
  rcases dataWayWe_spec ha.control hwe with ⟨rfl, hwr, p, hp⟩ | ⟨hfast, hhit⟩
  · cases hinst : s.plan.install with
    | true =>
      have hinv := (ha.lines.install p hp hinst).2.1
      rw [← hset, hh.1] at hinv
      cases hinv
    | false =>
      have hin : s.plan.store = true ∨ s.plan.zero = true := by
        rcases hwr with hf | hz | hst
        · rw [(planned_fill (ha.control p hp).1 hf).1] at hinst
          cases hinst
        · exact Or.inr hz
        · exact Or.inl hst
      exact hsame (ha.lines.resident p hp hin hinst).2.1
  · have hgo := (lkFastSt_spec hfast).1
    obtain ⟨hst, hsnp, -⟩ := lkGo_spec hgo
    have hown := ha.owner.req hsnp (by simp [hst])
    exact hsame ((hitw_iff ha.lookup hown.1 hown.2).1 hhit)

/-- An edge without a lookup or an install leaves the line state. -/
theorem holds_still (hu : Undisturbed i) (hal : AloneInv s) (hgo : lkGo cfg s i = false)
    (hinst : installGo s = false) (w line : ℕ) :
    (holds cfg (running cfg s i) w line ↔ holds cfg s w line) ∧
      (holdsDirty cfg (running cfg s i) w line ↔ holdsDirty cfg s w line) := by
  have hwe : stWe cfg s i = false := by simp [stWe, hal.snoop, hgo, hinst]
  have hh : holds cfg (running cfg s i) w line ↔ holds cfg s w line := by
    rw [holds, holds, validAt_running, tagRam_running]
    simp [hwe, hinst, hu.flash]
  refine ⟨hh, ?_⟩
  rw [holdsDirty, holdsDirty, hh, stDirty_running]
  simp [hwe]

theorem not_installGo_of_plan (hc : ControlInv s) (h : s.plan.install = false) :
    installGo s = false := by
  cases hgo : installGo s with
  | false => rfl
  | true =>
    have hphase : phaseOf s.state = some .install := by rw [(installGo_spec hgo).1]; rfl
    rw [firstStep_eq_install (hc _ hphase).2] at h
    cases h

/-! ## When an operation is performed -/

theorem not_answers_of_next (h : nextState cfg s i ≠ .idle) : stepAnswers s i = false := by
  cases ha : stepAnswers s i with
  | false => rfl
  | true =>
    simp only [stepAnswers, Bool.and_eq_true, decide_eq_true_eq] at ha
    exact absurd (by rw [nextState, if_pos ha.1.1.1, ha.1.1.2]) h

/-- An operation whose edge leaves it something to do has not been performed. -/
theorem contentsNext_of_next {v : ℕ → ℕ → BitVec 64} (hfast : lkFastStDone cfg s i = false)
    (h : nextState cfg s i ≠ .idle) : contentsNext cfg s i v = v := by
  simp [contentsNext, hfast, not_answers_of_next h]

theorem contentsNext_of_reads {v : ℕ → ℕ → BitVec 64} (h : ¬ Writes s.reqOp) :
    contentsNext cfg s i v = v := by
  unfold contentsNext
  split_ifs
  · exact performed_of_reads h
  · rfl

theorem lkFastStDone_of_state (h : s.state ≠ .lookup) : lkFastStDone cfg s i = false := by
  simp [lkFastStDone, lkFastSt_of_state h]

/-- A write is performed, and answered, by the edge of its last step. -/
theorem answers_of_done (hc : ControlInv s) (ho : OperationInv s) {p : DcState}
    (hp : phaseOf s.state = some p) (hd : stepDone s i = true)
    (hrest : firstStep s.plan.rest = .idle) (hw : Writes s.reqOp) : stepAnswers s i = true := by
  have hne : s.state ≠ .idle := by
    rintro hst
    simp [hst, phaseOf] at hp
  have hsent : s.rspSent = false := by simp [ho.sent hne, earlyRspOp_of_writes hw]
  have hread : s.state ≠ .sreadWait := by
    intro hst
    have hp' : firstStep s.plan = .sreadReq := by
      rw [(hc p hp).2]
      rw [hst] at hp
      exact (Option.some.inj hp).symm
    obtain ⟨-, hop, -⟩ := left_sread _ _ (ho.left (by simp [hp])) hp'
    rcases hop with hop | hop <;> simp [Writes, hop] at hw
  have hnext : stateNext s = .idle := by
    rw [stateNext, planNext_of_stepDone hp hd, ← (hc p hp).2]
    exact hrest
  simp [stepAnswers, hd, hnext, hsent, hread]

theorem contentsNext_of_done {v : ℕ → ℕ → BitVec 64} (hc : ControlInv s) (ho : OperationInv s)
    {p : DcState} (hp : phaseOf s.state = some p) (hd : stepDone s i = true)
    (hrest : firstStep s.plan.rest = .idle) : contentsNext cfg s i v = performed s v := by
  by_cases hw : Writes s.reqOp
  · simp [contentsNext, answers_of_done hc ho hp hd hrest hw]
  · rw [contentsNext_of_reads hw, performed_of_reads hw]

/-! ## The line of the operation in progress over an edge -/

theorem inPlace_of_plain {v : ℕ → ℕ → BitVec 64} {x : ℕ → BitVec 64}
    (hx : ∀ d < 4, x d = v (reqLine s) d) (hz : s.state = .zero → s.stepIdx = 0)
    (hs : s.state ≠ .swriteReq) : InPlace s v x := by
  have hstored : Stored s v x := by
    intro d hd
    split_ifs
    · rw [hx d hd]
    · exact hx d hd
  unfold InPlace
  cases hst : s.state <;> simp only <;> first | exact hx | exact hstored | skip
  · intro d hd
    rw [hz hst, if_neg (by omega)]
    exact hx d hd
  · exact absurd hst hs

theorem plain_of_inPlace {v : ℕ → ℕ → BitVec 64} {x : ℕ → BitVec 64} (h : InPlace s v x)
    (hz : s.state ≠ .zero) (hst : s.state ≠ .storeWrite) (hs : s.state ≠ .swriteReq) :
    ∀ d < 4, x d = v (reqLine s) d := by
  unfold InPlace at h
  cases hc : s.state <;> simp only [hc] at h <;> first | exact h | simp [hc] at hz hst hs

/-- A store's word merged is the word it leaves. -/
theorem performed_of_stored {v : ℕ → ℕ → BitVec 64} {x : ℕ → BitVec 64}
    (hop : s.reqOp = .store ∨ s.reqOp = .stwcx) (h : Stored s v x) {d : ℕ} (hd : d < 4) :
    (if d = reqDw s then mergeBytes s.reqBe s.reqWdata (x d) else x d) =
      performed s v (reqLine s) d := by
  have hx := h d hd
  have hz : s.reqOp ≠ .dcbz := by rcases hop with hop | hop <;> simp [hop]
  simp only [performed, hop, hz, true_and, false_and, if_false]
  split_ifs at hx ⊢ <;> exact hx

theorem stored_of_merged {v : ℕ → ℕ → BitVec 64} {x x' : ℕ → BitVec 64}
    (hx : ∀ d < 4, x d = v (reqLine s) d)
    (hx' : ∀ d < 4, x' d = if d = reqDw s then mergeBytes s.reqBe s.reqWdata (x d) else x d) :
    Stored s v x' := by
  intro d hd
  rw [hx' d hd, hx d hd]
  split_ifs
  · rw [mergeBytes_merge]
  · rfl

/-- A line that is read past the cache, or only written behind it, is not in it. -/
theorem lookup_absent (hu : Undisturbed i) (hal : AloneInv s) (ha : ArrayInv cfg s)
    (hgo : lkGo cfg s i = true)
    (h : (lk cfg s i).plan.sread = true ∨
      ((lk cfg s i).plan.swrite = true ∧ (lk cfg s i).plan.store = false)) :
    ∀ w < cfg.wayCount, ¬ holds cfg (running cfg s i) w (reqLine s) := by
  intro w hw hh
  obtain ⟨hst, hsnp, -⟩ := lkGo_spec hgo
  have hinst : installGo s = false := by simp [installGo, hst]
  have hold : holds cfg s w (reqLine s) := by
    rcases holds_running ha.lookup ha.owner hh with ⟨hold, -⟩ | ⟨hgo', -⟩
    · exact hold
    · simp [hinst] at hgo'
  cases hhit : hit cfg s with
  | false => exact not_holds_of_miss ha.lookup ha.owner hgo hhit w hw hold
  | true =>
    -- inhibited: the lookup invalidates the way that hits
    have hcache : cacheable cfg s i = !s.reqWimg.i := by
      simp [cacheable, hu.enabled, hal.enabled (by simp [hst])]
    have hhw := hitWay_lookup ha.lookup ha.owner ha.lines.unique hgo hhit
    have hown := ha.owner.req hsnp (by simp [hst])
    have hw' : w = hway cfg s := hhw.2.2.2 w hw ((hitw_iff ha.lookup hown.1 hown.2).2 hold)
    have hlk : (lk cfg s i).stWe = true ∧ (lk cfg s i).valid (hway cfg s) = false := by
      rw [lk_eq (hal.tea hu)] at h ⊢
      simp only [lkPlanCob, lkAllocate_plan] at h ⊢
      unfold lkOp at h ⊢
      cases hop : s.reqOp <;>
        simp only [lkLoad, lkStore, lkDcbz, lkDcbf, lkDcbst, lkDcbi, lkTouch, lkInhibited, hop, hcache,
          hhit, hu.enabled] at h ⊢ <;>
        (try split_ifs at h ⊢) <;>
        simp_all [lkDefault, lkInvalidate, lkAllocate, setWay, Plan.none]
    have hv := hh.1
    rw [validAt_running] at hv
    simp [stWe, hsnp, hgo, hlk, stWaddr, reqSet, stWvalid, hw'] at hv

/-- The words of the request's line over a lookup. -/
theorem inPlace_lookup {v : ℕ → ℕ → BitVec 64} (hu : Undisturbed i) (hal : AloneInv s)
    (ha : ArrayInv cfg s) (hgo : lkGo cfg s i = true) {w : ℕ} (hw : w < cfg.wayCount)
    (hh : holds cfg s w (reqLine s)) (hh' : holds cfg (running cfg s i) w (reqLine s))
    (hx : ∀ d < 4, lineWords cfg s w (reqLine s) d = v (reqLine s) d) :
    if reqAccept cfg s i = true then ∀ d < 4,
        lineWords cfg (running cfg s i) w (reqLine s) d = contentsNext cfg s i v (reqLine s) d
      else InPlace (running cfg s i) (contentsNext cfg s i v)
        (lineWords cfg (running cfg s i) w (reqLine s)) := by
  obtain ⟨hst, hsnp, -⟩ := lkGo_spec hgo
  have hown := ha.owner.req hsnp (by simp [hst])
  have hd : stepDone s i = false := by simp [stepDone, hst]
  have hans : stepAnswers s i = false := by simp [stepAnswers, hd]
  have hnext : nextState cfg s i = afterLookup cfg s i := by simp [nextState, hd, hst, hgo]
  have hidx : (running cfg s i).stepIdx = 0 := by
    show nextStepIdx cfg s i = 0
    simp [nextStepIdx, hd, hst, hgo]
  cases hfast : lkFastSt cfg s i with
  | true =>
    -- a fast store writes its bytes now
    obtain ⟨-, hlkans, hlk⟩ := lkFastSt_spec hfast
    have hop : s.reqOp = .store := by
      simp only [lkFastSt, Bool.and_eq_true, decide_eq_true_eq] at hfast
      tauto
    have hload : lkFastDone cfg s i = false := by simp [lkFastDone, lkFast, hop]
    have hhw : s.hitw w = true := (hitw_iff ha.lookup hown.1 hown.2).2 hh
    have hx' : ∀ d < 4, lineWords cfg (running cfg s i) w (reqLine s) d =
        if d = reqDw s then mergeBytes s.reqBe s.reqWdata (lineWords cfg s w (reqLine s) d)
        else lineWords cfg s w (reqLine s) d := by
      intro d _
      rw [words_running]
      simp [dataWayWe, fillBeat, hst, hfast, hhw, dataWdw, dataBe, dataWdata]
    have hstored := stored_of_merged hx hx'
    cases hready : i.rspReady with
    | true =>
      have hdone : lkFastStDone cfg s i = true := by simp [lkFastStDone, hfast, hready]
      have hval : contentsNext cfg s i v = performed s v := by simp [contentsNext, hdone]
      have hplain : ∀ d < 4, lineWords cfg (running cfg s i) w (reqLine s) d =
          contentsNext cfg s i v (reqLine s) d := by
        intro d hd'
        rw [hx' d hd', hval]
        refine performed_of_stored (Or.inl hop) (fun d hd => ?_) hd'
        split_ifs <;> rw [hx d hd]
      split_ifs with hacc
      · exact hplain
      · have hidle : (running cfg s i).state = .idle := by
          show nextState cfg s i = .idle
          rw [Bool.not_eq_true] at hacc
          simp [hnext, afterLookup, hlkans, hdone, hacc]
        refine inPlace_of_plain ?_ (by simp [hidle]) (by simp [hidle])
        rw [reqLine_running (by simpa using hacc)]
        exact hplain
    | false =>
      have hdone : lkFastStDone cfg s i = false := by simp [lkFastStDone, hready]
      have hacc : reqAccept cfg s i = false := by
        simp [reqAccept, reqReady, hst, hload, lkFastStNext, hdone]
      have hval : contentsNext cfg s i v = v := by simp [contentsNext, hans, hdone]
      have hstate : (running cfg s i).state = .storeWrite := by
        show nextState cfg s i = .storeWrite
        simp [hnext, afterLookup, hlkans, hload, hdone, hlk, lkModify, lkDefault, firstStep]
      obtain ⟨-, haddr, hbe, hdata⟩ := @request_running cfg s i hacc
      simp only [hacc, Bool.false_eq_true, if_false, InPlace, hstate, hval]
      unfold Stored reqDw reqLine
      rw [haddr, hbe, hdata]
      exact hstored
  | false =>
    have hdone : lkFastStDone cfg s i = false := by simp [lkFastStDone, hfast]
    have hval : contentsNext cfg s i v = v := by simp [contentsNext, hans, hdone]
    have hplain : ∀ d < 4, lineWords cfg (running cfg s i) w (reqLine s) d = v (reqLine s) d := by
      intro d hd'
      rw [words_still (by simp [hst]) hfast]
      exact hx d hd'
    rw [hval]
    split_ifs with hacc
    · exact hplain
    · rw [Bool.not_eq_true] at hacc
      refine inPlace_of_plain ?_ (fun _ => hidx) ?_
      · rw [reqLine_running hacc]
        exact hplain
      · intro hsw
        have hsw' : nextState cfg s i = .swriteReq := hsw
        obtain ⟨-, -, -, -, -, hn, -⟩ := @enter_phase cfg s i _
          (show phaseOf s.state = none by rw [hst]; rfl) (by rw [hsw']; rfl)
        have hplan : (lk cfg s i).plan.swrite = true ∧ (lk cfg s i).plan.store = false := by
          rw [hsw'] at hn
          have hn := hn.symm
          unfold firstStep at hn
          split_ifs at hn
          simp_all
        exact lookup_absent hu hal ha hgo (Or.inr hplan) w hw hh'

/-- The words of the request's line over a step of its operation. -/
theorem inPlace_phase {v : ℕ → ℕ → BitVec 64} {t : Traffic} {b : Bus} (ha : ArrayInv cfg s)
    (ho : OperationInv s) (hi : ContentsInv cfg s t b v) {p : DcState}
    (hp : phaseOf s.state = some p) {w : ℕ} (hw : w < cfg.wayCount)
    (hh : holds cfg s w (reqLine s)) (hx : InPlace s v (lineWords cfg s w (reqLine s))) :
    InPlace (running cfg s i) (contentsNext cfg s i v)
      (lineWords cfg (running cfg s i) w (reqLine s)) := by
  have hacc := @reqAccept_of_phase cfg s i _ hp
  have hline : reqLine (running cfg s i) = reqLine s := reqLine_running hacc
  have hnl : s.state ≠ .lookup := by rintro hst; simp [hst, phaseOf] at hp
  have hfast := @lkFastSt_of_state cfg s i hnl
  have hfd := @lkFastStDone_of_state cfg s i hnl
  have hleft := ho.left (by simp [hp])
  have hfirst := (ha.control p hp).2
  -- the line is in its way, so no plan brings it in
  have hinst : s.plan.install = false := by
    cases h : s.plan.install with
    | false => rfl
    | true => exact absurd hh ((ha.lines.install p hp h).2.2 w hw)
  have hidx : stepDone s i = true → (running cfg s i).stepIdx = 0 := by
    intro hd
    show nextStepIdx cfg s i = 0
    simp [nextStepIdx, hd]
  have hrest : stepDone s i = true → nextState cfg s i = firstStep s.plan.rest :=
    fun hd => (next_of_done ha.control hp hd).1
  have hown : s.plan.zero = true ∨ s.plan.store = true → w = s.way := by
    intro hz
    obtain ⟨hlt, hres, -⟩ := ha.lines.resident p hp (Or.symm hz) hinst
    exact ha.lines.unique _ w hw _ hlt hh hres
  -- steps that leave the words alone, and end in one that has written none
  have hquiet : s.state ≠ .fillWait ∧ s.state ≠ .zero ∧ s.state ≠ .storeWrite →
      s.state ≠ .swriteReq → nextState cfg s i ≠ .swriteReq →
      (nextState cfg s i = .zero → (running cfg s i).stepIdx = 0) →
      contentsNext cfg s i v = v →
      InPlace (running cfg s i) (contentsNext cfg s i v)
        (lineWords cfg (running cfg s i) w (reqLine s)) := by
    intro hst hsw hns hz hval
    have hplain := plain_of_inPlace hx hst.2.1 hst.2.2 hsw
    refine inPlace_of_plain ?_ hz hns
    rw [hline, hval]
    intro d hd
    rw [words_still hst hfast]
    exact hplain d hd
  have hcob : p = .cobRead ∨ p = .addrReq → InPlace (running cfg s i) (contentsNext cfg s i v)
      (lineWords cfg (running cfg s i) w (reqLine s)) := by
    intro hpc
    have hst : (s.state ≠ .fillWait ∧ s.state ≠ .zero ∧ s.state ≠ .storeWrite) ∧
        s.state ≠ .swriteReq := by
      refine ⟨⟨?_, ?_, ?_⟩, ?_⟩ <;> rintro hst <;> rw [hst] at hp <;>
        obtain rfl := Option.some.inj hp <;> simp at hpc
    obtain ⟨hidle, hsw, hni, -⟩ := left_clear _ _ hleft (hfirst.symm ▸ hpc)
    rcases @phase_step cfg s i _ hp with ⟨hd, -⟩ | ⟨hd, hn, -⟩ | ⟨-, hst', -⟩
    · have hnx := hrest hd
      refine hquiet hst.1 hst.2 ?_ (fun _ => hidx hd) ?_
      · intro h
        obtain ⟨h1, h2⟩ := hsw (hnx ▸ h)
        exact hi.absent (by simp [hp]) (Or.inr ⟨h1, h2, hst.2⟩) w hw hh
      · by_cases hni' : nextState cfg s i = .idle
        · exact contentsNext_of_reads (hidle (hnx ▸ hni'))
        · exact contentsNext_of_next hfd hni'
    · have hne : ∀ q, phaseOf q ≠ some p → nextState cfg s i ≠ q := by
        rintro q hq rfl
        exact hq hn
      refine hquiet hst.1 hst.2 (hne _ ?_) (fun h => absurd h (hne _ ?_))
        (contentsNext_of_next hfd (hne _ ?_)) <;> rcases hpc with rfl | rfl <;> simp [phaseOf]
    · exact absurd hst' hst.1.1
  cases hst : s.state <;> simp only [hst, phaseOf, Option.some.injEq, reduceCtorEq] at hp <;>
    subst hp
  case cobRead => exact hcob (Or.inl rfl)
  case cobReq => exact hcob (Or.inl rfl)
  case addrReq => exact hcob (Or.inr rfl)
  case addrWait => exact hcob (Or.inr rfl)
  case fillReq | fillWait =>
    rw [(left_fill _ _ hleft hfirst).1] at hinst
    cases hinst
  case sreadReq | sreadWait =>
    exact absurd hh (hi.absent (by simp [hst, phaseOf])
      (Or.inl (left_sread _ _ hleft hfirst).1) w hw)
  case install =>
    rw [firstStep_eq_install hfirst] at hinst
    cases hinst
  case zero =>
    obtain ⟨hop, hz⟩ := left_zero _ _ hleft hfirst
    rw [hinst] at hz
    obtain rfl := hown (Or.inl (firstStep_eq_zero hfirst))
    have hx' : ∀ d, lineWords cfg (running cfg s i) s.way (reqLine s) d =
        if d = s.stepIdx then 0 else lineWords cfg s s.way (reqLine s) d := by
      intro d
      rw [words_running]
      simp [dataWayWe, fillBeat, hst, dataWdw, dataBe, dataWdata, mergeBytes_all]
    simp only [InPlace, hst] at hx
    have hidx4 := ho.index
    by_cases h3 : s.stepIdx = 3
    · have hd : stepDone s i = true := by simp [stepDone, hst, h3]
      have hidle : (running cfg s i).state = .idle := by
        show nextState cfg s i = .idle
        rw [hrest hd, hz]
        rfl
      have hval : contentsNext cfg s i v = performed s v :=
        contentsNext_of_done ha.control ho (by rw [hst]; rfl) hd (by rw [hz]; rfl)
      refine inPlace_of_plain ?_ (by simp [hidle]) (by simp [hidle])
      intro d hd'
      rw [hline, hval, hx', hx d hd']
      simp only [performed, hop, reduceCtorEq, or_self, false_and, if_false, true_and, if_true]
      split_ifs <;> first | rfl | omega
    · have hd : stepDone s i = false := by simp [stepDone, hst, h3]
      have hn : nextState cfg s i = .zero := by simp [nextState, hd, hst]
      have hidx' : (running cfg s i).stepIdx = s.stepIdx + 1 := by
        show nextStepIdx cfg s i = _
        simp only [nextStepIdx, hd, hst]
        simp only [Bool.false_eq_true, if_false]
        omega
      rw [contentsNext_of_next hfd (by simp [hn])]
      simp only [InPlace, show (running cfg s i).state = .zero from hn, hidx', hline]
      intro d hd'
      rw [hx', hx d hd']
      split_ifs <;> first | rfl | omega
  case storeWrite =>
    obtain ⟨hop, hz⟩ := left_store _ _ hleft hfirst
    rw [hinst] at hz
    obtain rfl := hown (Or.inr (firstStep_eq_store hfirst))
    have hx' : ∀ d < 4, lineWords cfg (running cfg s i) s.way (reqLine s) d =
        performed s v (reqLine s) d := by
      intro d hd
      simp only [InPlace, hst] at hx
      rw [← performed_of_stored hop hx hd, words_running]
      simp [dataWayWe, fillBeat, hst, dataWdw, dataBe, dataWdata]
    have hd : stepDone s i = true := by simp [stepDone, hst]
    have hn := hrest hd
    cases hsw : s.plan.swrite with
    | true =>
      rw [hsw] at hz
      have hstate : (running cfg s i).state = .swriteReq := hn.trans (by rw [hz]; rfl)
      rw [contentsNext_of_next hfd (by rw [hn, hz]; simp)]
      simp only [InPlace, hstate, performed_running hacc, hline]
      exact hx'
    | false =>
      rw [hsw] at hz
      have hidle : (running cfg s i).state = .idle := hn.trans (by rw [hz]; rfl)
      refine inPlace_of_plain ?_ (by simp [hidle]) (by simp [hidle])
      rw [hline, contentsNext_of_done ha.control ho (by rw [hst]; rfl) hd (by rw [hz]; rfl)]
      exact hx'
  case swriteReq =>
    obtain ⟨-, hz⟩ := left_swrite _ _ hleft hfirst
    have hx' : ∀ d < 4, lineWords cfg (running cfg s i) w (reqLine s) d =
        performed s v (reqLine s) d := by
      intro d hd
      simp only [InPlace, hst] at hx
      rw [words_still (by simp [hst]) hfast]
      exact hx d hd
    cases hd : stepDone s i with
    | true =>
      have hidle : (running cfg s i).state = .idle := (hrest hd).trans hz
      refine inPlace_of_plain ?_ (by simp [hidle]) (by simp [hidle])
      rw [hline, contentsNext_of_done ha.control ho (by rw [hst]; rfl) hd hz]
      exact hx'
    | false =>
      have hn : nextState cfg s i = .swriteReq := by simp [nextState, hd, hst]
      rw [contentsNext_of_next hfd (by simp [hn])]
      simp only [InPlace, show (running cfg s i).state = .swriteReq from hn, performed_running hacc,
        hline]
      exact hx'

theorem nextState_of_reqAccept (h : reqAccept cfg s i = true) : nextState cfg s i = .lookup := by
  have hready : reqReady cfg s i = true := by
    simp only [reqAccept, Bool.and_eq_true] at h
    exact h.2
  rw [nextState_of_reqReady hready, if_pos h]

/-- Outside lookups and steps nothing is written or performed. -/
theorem still_of_rest (hgo : lkGo cfg s i = false) (hp : phaseOf s.state = none) :
    lkFastSt cfg s i = false ∧ stepDone s i = false ∧
      (phaseOf (nextState cfg s i) = none ∧ nextState cfg s i ≠ .readData) := by
  have hfast : lkFastSt cfg s i = false := by
    cases hf : lkFastSt cfg s i with
    | false => rfl
    | true => simp [(lkFastSt_spec hf).1] at hgo
  refine ⟨hfast, ?_, ?_⟩
  · cases hst : s.state <;> simp [hst, phaseOf] at hp <;> simp [stepDone, hst]
  · cases hst : s.state <;> simp [hst, phaseOf] at hp <;> simp [nextState, stepDone, hst, hgo] <;>
      (try split_ifs) <;> simp [phaseOf]

/-- **The words of the lines held**, over an edge. -/
theorem held_step {v : ℕ → ℕ → BitVec 64} {t : Traffic} {b : Bus} (hu : Undisturbed i)
    (hal : AloneInv s) (ha : ArrayInv cfg s) (ho : OperationInv s)
    (hi : ContentsInv cfg s t b v) {w line : ℕ} (hw : w < cfg.wayCount)
    (hh : holds cfg (running cfg s i) w line) :
    if line = reqLine (running cfg s i) then
      InPlace (running cfg s i) (contentsNext cfg s i v) (lineWords cfg (running cfg s i) w line)
    else ∀ d < 4, lineWords cfg (running cfg s i) w line d = contentsNext cfg s i v line d := by
  -- it is enough that the words are the memory, unless a step has begun
  have hplain : (∀ d < 4, lineWords cfg (running cfg s i) w line d =
      contentsNext cfg s i v line d) →
      (line = reqLine (running cfg s i) → phaseOf (nextState cfg s i) = none) →
      if line = reqLine (running cfg s i) then
        InPlace (running cfg s i) (contentsNext cfg s i v) (lineWords cfg (running cfg s i) w line)
      else ∀ d < 4, lineWords cfg (running cfg s i) w line d = contentsNext cfg s i v line d := by
    intro hx hnone
    split_ifs with heq
    · have hnone := hnone heq
      refine inPlace_of_plain (heq ▸ hx) ?_ ?_ <;> intro hst <;>
        rw [show nextState cfg s i = _ from hst] at hnone <;> simp [phaseOf] at hnone
    · exact hx
  have hlookup : reqAccept cfg s i = true → phaseOf (nextState cfg s i) = none := by
    intro hacc
    rw [nextState_of_reqAccept hacc]
    rfl
  rcases holds_running ha.lookup ha.owner hh with ⟨hold, -⟩ | ⟨hgo, rfl, rfl⟩
  · have hx := hi.held w hw line hold
    by_cases heq : line = reqLine s
    · rw [if_pos heq] at hx
      subst heq
      cases hp : phaseOf s.state with
      | some p =>
        have hacc := @reqAccept_of_phase cfg s i _ hp
        rw [if_pos (reqLine_running hacc).symm]
        exact inPlace_phase ha ho hi hp hw hold hx
      | none =>
        have hx := plain_of_inPlace hx (by rintro h; simp [h, phaseOf] at hp)
          (by rintro h; simp [h, phaseOf] at hp) (by rintro h; simp [h, phaseOf] at hp)
        cases hgo : lkGo cfg s i with
        | true =>
          have hstep := inPlace_lookup hu hal ha hgo hw hold hh hx
          cases hacc : reqAccept cfg s i with
          | true =>
            rw [hacc, if_pos rfl] at hstep
            exact hplain hstep (fun _ => hlookup hacc)
          | false =>
            rw [hacc, if_neg (by simp)] at hstep
            rw [if_pos (reqLine_running hacc).symm]
            exact hstep
        | false =>
          obtain ⟨hfast, hd, hnone, -⟩ := still_of_rest hgo hp
          refine hplain (fun d hd' => ?_) (fun _ => hnone)
          have hst : s.state ≠ .fillWait ∧ s.state ≠ .zero ∧ s.state ≠ .storeWrite := by
            refine ⟨?_, ?_, ?_⟩ <;> rintro h <;> simp [h, phaseOf] at hp
          rw [words_still hst hfast, hx d hd']
          simp [contentsNext, stepAnswers, hd, lkFastStDone, hfast]
    · rw [if_neg heq] at hx
      refine hplain (fun d hd => ?_) (fun heq' => ?_)
      · rw [words_other ha hw hold heq, contentsNext_of_ne heq]
        exact hx d hd
      · cases hacc : reqAccept cfg s i with
        | true => exact hlookup hacc
        | false => exact absurd (heq'.trans (reqLine_running hacc)) heq
  · -- the install of the line
    have hst := (installGo_spec hgo).1
    have hp : phaseOf s.state = some .install := by rw [hst]; rfl
    have hd : stepDone s i = true := by simp [stepDone, hst, hgo]
    have hfirst := (ha.control _ hp).2
    have hrest := left_install _ _ (ho.left (by simp [hp])) hfirst
    refine hplain (fun d hd' => ?_) (fun _ => ?_)
    · have hx := hi.comingIn (by simp [hp]) (firstStep_eq_install hfirst)
      simp only [ComingIn, hst] at hx
      rw [words_still (by simp [hst]) (lkFastSt_of_state (by simp [hst])),
        contentsNext_of_done ha.control ho hp hd hrest]
      exact hx d hd'
    · rw [(next_of_done ha.control hp hd).1, hrest]
      rfl

/-! ## A line coming in -/

theorem fresh_install : ∀ op, ∀ q ∈ freshPlans op, ∀ cob, q.install = true →
    firstStep { q with cob := cob } = .cobRead ∨ firstStep { q with cob := cob } = .addrReq ∨
      firstStep { q with cob := cob } = .fillReq ∨ firstStep { q with cob := cob } = .zero := by
  intro op
  cases op <;> decide

theorem left_brings : ∀ op, ∀ p ∈ leftPlans op, p.install = true →
    (firstStep p = .cobRead ∨ firstStep p = .addrReq →
      firstStep p.rest = .addrReq ∨ firstStep p.rest = .fillReq ∨ firstStep p.rest = .zero) ∧
    (firstStep p ≠ .sreadReq ∧ firstStep p ≠ .swriteReq ∧
      (firstStep p = .storeWrite → p.swrite = false)) := by
  intro op
  cases op <;> decide

/-- Steps with no word to show yet. -/
theorem comingIn_of_start {v : ℕ → ℕ → BitVec 64} {x : ℕ → BitVec 64}
    (h : s.state = .cobRead ∨ s.state = .cobReq ∨ s.state = .addrReq ∨ s.state = .addrWait ∨
      s.state = .fillReq ∨ ((s.state = .fillWait ∨ s.state = .zero) ∧ s.stepIdx = 0)) :
    ComingIn s v x := by
  rcases h with h | h | h | h | h | ⟨h | h, h0⟩ <;> simp [ComingIn, h]
  · intro k hk
    omega
  · intro d hd
    omega

/-- A beat of a fill is the word of the line it is for. -/
theorem fill_beat {v : ℕ → ℕ → BitVec 64} {t : Traffic} {b : Bus} (hr : BusReads b i)
    (ha : ArrayInv cfg s) (ht : TrafficInv s t) (ho : OperationInv s)
    (hi : ContentsInv cfg s t b v) (hb : fillBeat s i = true) :
    i.busRdData = v (reqLine s) (fillDw s) := by
  have hst : s.state = .fillWait ∧ i.busRdValid = true := by
    simp only [fillBeat, Bool.and_eq_true, decide_eq_true_eq] at hb
    exact hb.1
  have hp : phaseOf s.state = some .fillReq := by rw [hst.1]; rfl
  obtain ⟨hburst, hline, hdw, hbeat⟩ := hi.burst hst.1
  have hinst := (left_fill _ _ (ho.left (by simp [hp])) (ha.control _ hp).2).1
  have hnone : t.castout = none := by
    cases hc : t.castout with
    | none => rfl
    | some c => simp [(ht.castout c hc).1] at hp
  have hbacked := hi.backed (reqLine s)
    (fun w hw hh => (ha.lines.install _ hp hinst).2.2 w hw hh.1) (fillDw s)
    (Nat.mod_lt _ (by decide))
  rw [hr.burst hst.2 hburst, hline, hdw, hbeat, ← hbacked]
  simp [backing, hnone, fillDw]

theorem comingIn_step {v : ℕ → ℕ → BitVec 64} {t : Traffic} {b : Bus} (hu : Undisturbed i)
    (hr : BusReads b i) (ha : ArrayInv cfg s) (ht : TrafficInv s t)
    (ho : OperationInv s) (hi : ContentsInv cfg s t b v)
    (hne : phaseOf (nextState cfg s i) ≠ none) (hinst : (nextPlan cfg s i).install = true) :
    ComingIn (running cfg s i) (contentsNext cfg s i v)
      (lineWords cfg (running cfg s i) (running cfg s i).way (reqLine (running cfg s i))) := by
  have hstate : (running cfg s i).state = nextState cfg s i := rfl
  have hidxd : (running cfg s i).stepIdx = nextStepIdx cfg s i := rfl
  cases hp : phaseOf s.state with
  | none =>
    obtain ⟨q, hq⟩ := Option.ne_none_iff_exists'.1 hne
    obtain ⟨hst, hgo, -, -, -, hn, hpl⟩ := enter_phase hp hq
    rw [hpl] at hinst
    have hfirst : firstStep (lk cfg s i).plan = .cobRead ∨ firstStep (lk cfg s i).plan = .addrReq ∨
        firstStep (lk cfg s i).plan = .fillReq ∨ firstStep (lk cfg s i).plan = .zero :=
      fresh_install _ { (lk cfg s i).plan with cob := false } (enter_fresh hp hq)
        (lk cfg s i).plan.cob hinst
    apply comingIn_of_start
    have hidx : nextStepIdx cfg s i = 0 := by simp [nextStepIdx, stepDone, hst, hgo]
    rw [hstate, hidxd, hn, hidx]
    rcases hfirst with h | h | h | h <;> simp [h]
  | some p =>
    have hacc := @reqAccept_of_phase cfg s i _ hp
    have hgo := @lkGo_of_phase cfg s i _ hp
    have hline : reqLine (running cfg s i) = reqLine s := reqLine_running hacc
    have hdwd : reqDw (running cfg s i) = reqDw s := by
      rw [reqDw, (request_running hacc).2.1, reqDw]
    have hway : (running cfg s i).way = s.way := by simp [running, hgo]
    have hnl : s.state ≠ .lookup := by rintro hst; simp [hst, phaseOf] at hp
    have hval : contentsNext cfg s i v = v := by
      apply contentsNext_of_next (lkFastStDone_of_state hnl)
      rintro h
      simp [h, phaseOf] at hne
    have hleft := ho.left (by simp [hp])
    have hfirst := (ha.control p hp).2
    have hold : s.plan.install = true := by
      rcases @phase_step cfg s i _ hp with ⟨-, -, hn⟩ | ⟨-, -, hn⟩ | ⟨-, -, -, -, hn⟩
      · rw [hn] at hinst
        exact install_of_clear hinst
      · rwa [hn] at hinst
      · simp [hn, phaseOf] at hne
    have hx := hi.comingIn (by simp [hp]) hold
    have hrest : stepDone s i = true → nextState cfg s i = firstStep s.plan.rest :=
      fun hd => (next_of_done ha.control hp hd).1
    have hidx : stepDone s i = true → nextStepIdx cfg s i = 0 := fun hd => by
      simp [nextStepIdx, hd]
    obtain ⟨hbrings, hns, hnw, hstore⟩ := left_brings _ _ hleft hold
    rw [hval, hway, hline]
    have hcob : firstStep s.plan = .cobRead ∨ firstStep s.plan = .addrReq →
        ComingIn (running cfg s i) v (lineWords cfg (running cfg s i) s.way (reqLine s)) := by
      intro hpc
      apply comingIn_of_start
      rw [hstate, hidxd]
      cases hd : stepDone s i with
      | true =>
        rw [hrest hd, hidx hd]
        rcases hbrings hpc with h | h | h <;> simp [h]
      | false =>
        rcases @phase_step cfg s i _ hp with ⟨hd', -⟩ | ⟨-, hn, -⟩ | ⟨-, hst, -⟩
        · simp [hd] at hd'
        · rw [hfirst] at hpc
          rcases hpc with rfl | rfl <;> cases hn' : nextState cfg s i <;> simp [hn', phaseOf] at hn ⊢
        · rw [hst] at hp
          rw [hfirst, ← Option.some.inj hp] at hpc
          simp at hpc
    cases hst : s.state <;> simp only [hst, phaseOf, Option.some.injEq, reduceCtorEq] at hp <;>
      subst hp
    case cobRead | cobReq => exact hcob (Or.inl hfirst)
    case addrReq | addrWait => exact hcob (Or.inr hfirst)
    case sreadReq | sreadWait => exact absurd hfirst hns
    case swriteReq => exact absurd hfirst hnw
    case fillReq =>
      apply comingIn_of_start
      rw [hstate, hidxd]
      cases hb : busAccept s i <;> simp [nextState, nextStepIdx, stepDone, hst, hb]
    case fillWait =>
      obtain ⟨-, hnext⟩ := left_fill _ _ hleft hfirst
      have hdw : reqDw s < 4 := Nat.mod_lt _ (by decide)
      have hidx4 := ho.index
      simp only [ComingIn, hst] at hx
      cases hb : fillBeat s i with
      | false =>
        have hd : stepDone s i = false := by simp [stepDone, hst, hb]
        have herr : (i.busRdValid && i.busRdError) = false := by
          rw [Bool.and_eq_false_imp]
          exact hu.noRdError
        have hn : nextState cfg s i = .fillWait := by simp [nextState, hd, hst, herr]
        have hi' : nextStepIdx cfg s i = s.stepIdx := by simp [nextStepIdx, hd, hst, hb]
        simp only [ComingIn, hstate, hn, hidxd, hi', hline, hdwd]
        intro k hk
        rw [words_running]
        simpa [dataWayWe, hb, hst, lkFastSt_of_state hnl] using hx k hk
      | true =>
        have hbeat := fill_beat hr ha ht ho hi hb
        have hx' : ∀ d, lineWords cfg (running cfg s i) s.way (reqLine s) d =
            if d = fillDw s then v (reqLine s) d else lineWords cfg s s.way (reqLine s) d := by
          intro d
          rw [words_running]
          simp only [dataWayWe, hb, Bool.true_or, if_true, decide_true, true_and, dataWdw, dataBe,
            dataWdata, mergeBytes_all]
          split_ifs with hd
          · rw [hd, hbeat]
          · rfl
        have hsofar : ∀ k ≤ s.stepIdx, lineWords cfg (running cfg s i) s.way (reqLine s)
            ((reqDw s + k) % 4) = v (reqLine s) ((reqDw s + k) % 4) := by
          intro k hk
          rw [hx']
          split_ifs with hd
          · rfl
          · refine hx k ?_
            rcases Nat.lt_or_ge k s.stepIdx with hlt | hge
            · exact hlt
            · obtain rfl : k = s.stepIdx := by omega
              exact absurd rfl hd
        by_cases h3 : s.stepIdx = 3
        · have hd : stepDone s i = true := by simp [stepDone, hst, hb, h3]
          have hall : ∀ d < 4, lineWords cfg (running cfg s i) s.way (reqLine s) d =
              v (reqLine s) d := by
            intro d hd
            have hk := hsofar ((d + 4 - reqDw s) % 4) (by omega)
            rwa [show (reqDw s + (d + 4 - reqDw s) % 4) % 4 = d by omega] at hk
          rcases hnext with ⟨hn, hw⟩ | ⟨hn, hop⟩
          · simp only [ComingIn, hstate, hrest hd, hn, performed_running hacc, hline,
              performed_of_reads hw]
            exact hall
          · simp only [ComingIn, hstate, hrest hd, hn]
            intro d hd
            rw [hline]
            split_ifs <;> rw [hall d hd]
        · have hd : stepDone s i = false := by simp [stepDone, hst, h3]
          have hn : nextState cfg s i = .fillWait := by
            have herr : (i.busRdValid && i.busRdError) = false := by
              rw [Bool.and_eq_false_imp]
              exact hu.noRdError
            simp [nextState, hd, hst, herr]
          have hi' : nextStepIdx cfg s i = s.stepIdx + 1 := by
            simp only [nextStepIdx, hd, hst, hb]
            simp only [Bool.false_eq_true, if_false, if_true]
            omega
          simp only [ComingIn, hstate, hn, hidxd, hi', hline, hdwd]
          intro k hk
          exact hsofar k (by omega)
    case zero =>
      obtain ⟨hop, hz⟩ := left_zero _ _ hleft hfirst
      rw [hold, if_pos rfl] at hz
      have hidx4 := ho.index
      simp only [ComingIn, hst] at hx
      have hx' : ∀ d, lineWords cfg (running cfg s i) s.way (reqLine s) d =
          if d = s.stepIdx then 0 else lineWords cfg s s.way (reqLine s) d := by
        intro d
        rw [words_running]
        simp [dataWayWe, fillBeat, hst, dataWdw, dataBe, dataWdata, mergeBytes_all]
      have hsofar : ∀ d ≤ s.stepIdx, lineWords cfg (running cfg s i) s.way (reqLine s) d = 0 := by
        intro d hd
        rw [hx']
        split_ifs with heq
        · rfl
        · exact hx d (by omega)
      by_cases h3 : s.stepIdx = 3
      · have hd : stepDone s i = true := by simp [stepDone, hst, h3]
        simp only [ComingIn, hstate, hrest hd, hz, performed_running hacc, hline]
        intro d hd'
        rw [hsofar d (by omega)]
        simp [performed, hop]
      · have hd : stepDone s i = false := by simp [stepDone, hst, h3]
        have hn : nextState cfg s i = .zero := by simp [nextState, hd, hst]
        have hi' : nextStepIdx cfg s i = s.stepIdx + 1 := by
          simp only [nextStepIdx, hd, hst]
          simp only [Bool.false_eq_true, if_false]
          omega
        simp only [ComingIn, hstate, hn, hidxd, hi']
        intro d hd'
        exact hsofar d (by omega)
    case storeWrite =>
      obtain ⟨hop, hz⟩ := left_store _ _ hleft hfirst
      rw [hstore hfirst, hold] at hz
      simp only [ComingIn, hst] at hx
      have hd : stepDone s i = true := by simp [stepDone, hst]
      have hn : nextState cfg s i = .install := (hrest hd).trans (by rw [hz]; rfl)
      simp only [ComingIn, hstate, hn, performed_running hacc, hline]
      intro d hd'
      rw [← performed_of_stored hop hx hd', words_running]
      simp [dataWayWe, fillBeat, hst, dataWdw, dataBe, dataWdata]
    case install =>
      cases hd : stepDone s i with
      | true =>
        rw [hrest hd, left_install _ _ hleft hfirst] at hne
        simp [phaseOf] at hne
      | false =>
        have hn : nextState cfg s i = .install := by simp [nextState, hd, hst]
        simp only [ComingIn, hst] at hx
        simp only [ComingIn, hstate, hn, performed_running hacc, hline]
        intro d hd'
        rw [words_still (by simp [hst]) (lkFastSt_of_state hnl)]
        exact hx d hd'

end Dcache
end SloPPC603
