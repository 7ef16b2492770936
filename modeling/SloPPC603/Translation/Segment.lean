import SloPPC603.Clocked.Prepared

/-!
# The segment registers

The registers, signals and clock edge of `ppc_segment_registers.sv`, and its
requests as a store of sixteen words.

* `service` — what a request does to the sixteen visible words and what it is
  answered.
* `keeper_allOrNothing` — the bank performs a prepared write whole, at its commit,
  or not at all.
-/

namespace SloPPC603
namespace Segment

open Clocked

/-! ## Requests -/

/-- `seg_req_kind_t`; the unlisted codes are answered as unsupported. -/
inductive SegReqKind
  | read
  | write
  | snapshot
  | prepare
  | unlisted (code : BitVec 3)
  deriving DecidableEq, Repr

/-- The request port. -/
structure Request where
  kind : SegReqKind
  indexed : Bool := false
  index : BitVec 4 := 0
  address : BitVec 32 := 0
  data : BitVec 32 := 0
  pr : Bool := false
  deriving DecidableEq, Repr

/-- The response port. -/
structure Response where
  kind : SegReqKind
  index : BitVec 4
  address : BitVec 32
  data : BitVec 32
  privileged : Bool
  unsupported : Bool
  deriving DecidableEq, Repr

/-- `request_index`: a snapshot always selects from the address. -/
def requestIndex (q : Request) : BitVec 4 :=
  if q.kind = .snapshot then q.address.extractLsb' 28 4
  else if q.indexed then q.address.extractLsb' 28 4 else q.index

/-- `normalized_write_data`: a descriptor with T clear reserves four bits. -/
def normalizedWriteData (q : Request) : BitVec 32 :=
  if q.data.getLsbD 31 then q.data else q.data &&& 0xf0ffffff#32

/-- The sixteen words as reads see them. -/
abbrev Store := BitVec 4 → BitVec 32

/-- The store with one word replaced. -/
def Store.set (v : Store) (index : BitVec 4) (data : BitVec 32) : Store :=
  fun x => if x = index then data else v x

/-! ## Registers and signals -/

/-- The inputs of one cycle. -/
structure Input where
  rstN : Bool := true
  prepareCommit : Bool := false
  prepareAbort : Bool := false
  commitAckReady : Bool := false
  reqValid : Bool := false
  req : Request := { kind := .read }
  rspReady : Bool := false

/-- The registers. -/
structure State where
  sr : Store
  srWritten : BitVec 4 → Bool
  rspValid : Bool
  rsp : Response
  prepared : Bool
  preparedIndex : BitVec 4
  preparedData : BitVec 32
  commitAck : Bool

section Signals

variable (enable : Bool) (s : State) (i : Input)

/-- `sr_read` of a register: zero until it is first written. -/
def srRead (index : BitVec 4) : BitVec 32 := if s.srWritten index then s.sr index else 0

/-- The response slot is empty or drains on this edge. -/
def rspFree : Bool := !s.rspValid || i.rspReady

/-- `req_ready_o`. -/
def reqReady : Bool := i.rstN && !s.prepared && !s.commitAck && rspFree s i

/-- `request_fire`. -/
def requestFire : Bool := i.reqValid && reqReady s i

/-- `commit_fire`. -/
def commitFire : Bool :=
  enable && i.prepareCommit && !i.prepareAbort && s.prepared && rspFree s i

/-- A write request is stored on the edge that takes it. -/
def writeFire : Bool := requestFire s i && i.req.kind = .write && !i.req.pr

/-- `sr_we`. -/
def srWe : Bool := i.rstN && (commitFire enable s i || writeFire s i)

/-- `sr_waddr`. -/
def srWaddr : BitVec 4 :=
  if commitFire enable s i then s.preparedIndex else requestIndex i.req

/-- `sr_wdata`. -/
def srWdata : BitVec 32 :=
  if commitFire enable s i then s.preparedData else normalizedWriteData i.req

/-- A prepare request the build and the privilege level allow. -/
def prepareAllowed (q : Request) : Bool := q.kind = .prepare && enable && !q.pr

/-- The response to a request, `read` being the word its register reads as. -/
def respond (q : Request) (read : BitVec 32) : Response where
  kind := q.kind
  index := requestIndex q
  address := q.address
  data :=
    match q.kind with
    | .read => if q.pr then 0 else read
    | .write => if q.pr then 0 else normalizedWriteData q
    | .snapshot => read
    | .prepare => if enable && !q.pr then normalizedWriteData q else 0
    | .unlisted _ => 0
  privileged :=
    match q.kind with
    | .read | .write => q.pr
    | .prepare => enable && q.pr
    | _ => false
  unsupported :=
    match q.kind with
    | .prepare => !enable
    | .unlisted _ => true
    | _ => false

/-- A request is taken and held on this edge. -/
def holdFire : Bool := requestFire s i && prepareAllowed enable i.req && !i.prepareAbort

/-! ## The clock edge -/

/-- The registers after an edge in reset; the words themselves are not reset. -/
def resetState : State :=
  { s with
    srWritten := fun _ => false
    rspValid := false
    rsp := ⟨.read, 0, 0, 0, false, false⟩
    prepared := false
    preparedIndex := 0
    preparedData := 0
    commitAck := false }

/-- The registers after an edge out of reset. -/
def runState : State where
  sr := if srWe enable s i then s.sr.set (srWaddr enable s i) (srWdata enable s i) else s.sr
  srWritten := fun x =>
    if srWe enable s i && x = srWaddr enable s i then true else s.srWritten x
  rspValid := if requestFire s i then true else if i.rspReady then false else s.rspValid
  rsp :=
    if requestFire s i then respond enable i.req (srRead s (requestIndex i.req)) else s.rsp
  prepared :=
    if holdFire enable s i then true
    else if enable && (i.prepareAbort || commitFire enable s i) then false
    else s.prepared
  preparedIndex := if holdFire enable s i then requestIndex i.req else s.preparedIndex
  preparedData := if holdFire enable s i then normalizedWriteData i.req else s.preparedData
  commitAck :=
    if commitFire enable s i then true
    else if enable && i.commitAckReady then false
    else s.commitAck

/-- One clock edge. -/
def step : State := if i.rstN then runState enable s i else resetState s

end Signals

/-- The bank as a clocked machine, started by an edge in reset. -/
def machine (enable : Bool) : Machine State Input where
  Initial := fun s => ∃ s₀, s = resetState s₀
  step := step enable

/-! ## The store -/

/-- What a request does to the visible words and what it is answered.  `enable`
says whether the build has prepared writes. -/
def service (enable : Bool) : Service Store Request Response where
  perform := fun q v =>
    if (q.kind = .write && !q.pr) || prepareAllowed enable q then
      v.set (requestIndex q) (normalizedWriteData q)
    else v
  answer := fun q v => respond enable q (v (requestIndex q))

/-- What an edge does with requests. -/
def edge (enable : Bool) (s : State) (i : Input) : Edge Store Request where
  taken := if requestFire s i then some i.req else none
  answers := requestFire s i
  action :=
    if !i.rstN then .reset (fun _ => 0)
    else if holdFire enable s i then .hold
    else if requestFire s i then (if i.req.kind = .prepare then .none else .perform)
    else if enable && i.prepareAbort then .abort
    else if commitFire enable s i then .commit
    else .none

/-- The bank as a keeper of sixteen words. -/
def keeper (enable : Bool) : Keeper (machine enable) Store Request Response where
  store := srRead
  edge := edge enable
  shown := fun s => if s.rspValid then some s.rsp else none
  prepared := fun s => s.prepared

/-- The registers against the ledger. -/
structure Inv (enable : Bool) (s : State) (l : Ledger Store Request Response) : Prop where
  settles : (keeper enable).Settles (service enable) s l
  /-- What is held is an allowed prepare request, in the reservation's registers. -/
  held : ∀ q, l.held = some q → prepareAllowed enable q = true ∧
    s.preparedIndex = requestIndex q ∧ s.preparedData = normalizedWriteData q

section Proof

variable {enable : Bool} {s : State} {i : Input} {l : Ledger Store Request Response}

/-- A write changes the word it names. -/
theorem srRead_write (hwe : srWe enable s i = true) (hrst : i.rstN = true) :
    srRead (step enable s i) =
      Store.set (srRead s) (srWaddr enable s i) (srWdata enable s i) := by
  funext x
  by_cases hx : x = srWaddr enable s i <;>
    simp [srRead, step, runState, hrst, hwe, Store.set, hx]

/-- Any other edge leaves the words alone. -/
theorem srRead_keep (hwe : srWe enable s i = false) (hrst : i.rstN = true) :
    srRead (step enable s i) = srRead s := by
  funext x
  simp [srRead, step, runState, hrst, hwe]

theorem not_requestFire_of_prepared (h : s.prepared = true) : requestFire s i = false := by
  simp [requestFire, reqReady, h]

theorem not_commitFire_of_requestFire (h : requestFire s i = true) :
    commitFire enable s i = false := by
  have hp : s.prepared = false := by
    rw [← Bool.not_eq_true]
    intro hp
    rw [not_requestFire_of_prepared hp] at h
    exact Bool.false_ne_true h
  simp [commitFire, hp]

/-- The reset state agrees with a ledger that starts from zero words. -/
theorem inv_resetState (s₀ : State) (l : Ledger Store Request Response)
    (hbase : l.base = fun _ => 0) (hnone : l.settled = []) (hheld : l.held = none) :
    Inv enable (resetState s₀) l := by
  constructor
  · constructor
    · rw [Ledger.store, hnone, hbase]
      rfl
    · intro a ha
      simp [keeper, resetState] at ha
    · rw [hheld]
      rfl
  · intro q hq
    simp [hheld] at hq

variable (h : Inv enable s l) (hrst : i.rstN = true)
include h hrst

/-- An edge that takes a request. -/
theorem inv_request (hfire : requestFire s i = true) :
    Inv enable (step enable s i) (l.update (service enable) (edge enable s i)) := by
  obtain ⟨hstore, hshown, hprep⟩ := h.settles
  have hcommit := @not_commitFire_of_requestFire enable s i hfire
  have hprepared : s.prepared = false := by
    rw [← Bool.not_eq_true]
    intro hp
    rw [not_requestFire_of_prepared hp] at hfire
    exact Bool.false_ne_true hfire
  have hnone : l.held = none := by
    rw [← Option.not_isSome_iff_eq_none, ← hprep]
    simp [keeper, hprepared]
  have hcur : l.current (edge enable s i) = some i.req := by simp [Ledger.current, edge, hfire]
  have hanswer : (keeper enable).shown (step enable s i) =
      some ((service enable).answer i.req (l.store (service enable))) := by
    rw [← hstore]
    simp [keeper, service, step, runState, hrst, hfire]
  have hshown' : (l.update (service enable) (edge enable s i)).shown =
      some ((service enable).answer i.req (l.store (service enable))) := by
    simp [Ledger.update, edge, hfire, Ledger.current]
  by_cases hhold : holdFire enable s i = true
  · have hact : (edge enable s i).action = .hold := by simp [edge, hrst, hhold]
    have hallowed : prepareAllowed enable i.req = true := by
      simp only [holdFire, Bool.and_eq_true] at hhold
      exact hhold.1.2
    have hkind : i.req.kind = .prepare := by
      simp only [prepareAllowed, Bool.and_eq_true, decide_eq_true_eq] at hallowed
      exact hallowed.1.1
    have hwe : srWe enable s i = false := by simp [srWe, hcommit, writeFire, hkind]
    have hheld' : (l.update (service enable) (edge enable s i)).held = some i.req := by
      simp [Ledger.update, Ledger.nextHeld, hact, hcur]
    constructor
    · constructor
      · rw [Ledger.store_hold hact, ← hstore]
        exact srRead_keep hwe hrst
      · intro a ha
        rw [hshown', ← ha, hanswer]
      · rw [hheld']
        simp [keeper, step, runState, hrst, hhold]
    · intro q hq
      obtain rfl : i.req = q := Option.some.inj (hheld'.symm.trans hq)
      refine ⟨hallowed, ?_, ?_⟩ <;> simp [step, runState, hrst, hhold]
  · have hhold' : holdFire enable s i = false := by simpa using hhold
    have hheld' : (l.update (service enable) (edge enable s i)).held = none := by
      by_cases hkind : i.req.kind = .prepare <;>
        simp [Ledger.update, Ledger.nextHeld, edge, hrst, hhold', hfire, hkind, hnone]
    have hprep' : (step enable s i).prepared = false := by
      simp [step, runState, hrst, hhold', hprepared]
    have hstore' : srRead (step enable s i) =
        (l.update (service enable) (edge enable s i)).store (service enable) := by
      by_cases hkind : i.req.kind = .prepare
      · have hact : (edge enable s i).action = .none := by
          simp [edge, hrst, hhold', hfire, hkind]
        have hwe : srWe enable s i = false := by simp [srWe, hcommit, writeFire, hkind]
        rw [Ledger.store_idle hact, ← hstore]
        exact srRead_keep hwe hrst
      · have hact : (edge enable s i).action = .perform := by
          simp [edge, hrst, hhold', hfire, hkind]
        rw [Ledger.store_perform hact hcur, ← hstore]
        cases hw : writeFire s i with
        | true =>
          have hwe : srWe enable s i = true := by simp [srWe, hrst, hw]
          simp only [writeFire, Bool.and_eq_true, decide_eq_true_eq, Bool.not_eq_true'] at hw
          rw [srRead_write hwe hrst]
          simp [service, srWaddr, srWdata, hcommit, hw, keeper]
        | false =>
          have hwe : srWe enable s i = false := by simp [srWe, hcommit, hw]
          simp only [writeFire, hfire, Bool.true_and] at hw
          have hrefused : ((i.req.kind = .write && !i.req.pr) || prepareAllowed enable i.req) =
              false := by
            simp [hw, prepareAllowed, hkind]
          rw [srRead_keep hwe hrst]
          simp only [service, hrefused, keeper, Bool.false_eq_true, if_false]
    constructor
    · constructor
      · exact hstore'
      · intro a ha
        rw [hshown', ← ha, hanswer]
      · rw [hheld']
        exact hprep'
    · intro q hq
      rw [hheld'] at hq
      cases hq

/-- An edge that takes none. -/
theorem inv_idle (hfire : requestFire s i = false) :
    Inv enable (step enable s i) (l.update (service enable) (edge enable s i)) := by
  obtain ⟨hstore, hshown, hprep⟩ := h.settles
  have hhold : ∀ b, holdFire b s i = false := fun b => by simp [holdFire, hfire]
  have hwrite : writeFire s i = false := by simp [writeFire, hfire]
  have hshown' : ∀ a, (keeper enable).shown (step enable s i) = some a →
      (l.update (service enable) (edge enable s i)).shown = some a := by
    intro a ha
    have ha' : (keeper enable).shown s = some a := by
      cases hv : s.rspValid <;> cases hr : i.rspReady <;>
        simp_all [keeper, step, runState]
    simpa [Ledger.update, edge, hfire] using hshown a ha'
  by_cases habort : enable = true ∧ i.prepareAbort = true
  · have hact : (edge enable s i).action = .abort := by
      simp [edge, hrst, hhold, hfire, habort]
    have hwe : srWe enable s i = false := by simp [srWe, commitFire, hwrite, habort]
    have hheld' : (l.update (service enable) (edge enable s i)).held = none := by
      simp [Ledger.update, Ledger.nextHeld, hact]
    constructor
    · constructor
      · rw [Ledger.store_abort hact, ← hstore]
        exact srRead_keep hwe hrst
      · exact hshown'
      · rw [hheld']
        simp [keeper, step, runState, hrst, hhold, habort]
    · intro q hq
      rw [hheld'] at hq
      cases hq
  · have habort' : (enable && i.prepareAbort) = false := by
      rw [← Bool.not_eq_true, Bool.and_eq_true]
      exact habort
    cases hcommit : commitFire enable s i with
    | true =>
      have hact : (edge enable s i).action = .commit := by
        simp [edge, hrst, hhold, hfire, habort', hcommit]
      have hprepared : s.prepared = true := by
        simp only [commitFire, Bool.and_eq_true] at hcommit
        exact hcommit.1.2
      have hends : (enable && (i.prepareAbort || commitFire enable s i)) = true := by
        have hparts := hcommit
        simp only [commitFire, Bool.and_eq_true] at hparts
        rw [hcommit, hparts.1.1.1.1, Bool.or_true, Bool.and_true]
      obtain ⟨q, hq⟩ : ∃ q, l.held = some q := by
        rw [← Option.isSome_iff_exists, ← hprep]
        exact hprepared
      obtain ⟨hallowed, hindex, hdata⟩ := h.held q hq
      have hwe : srWe enable s i = true := by simp [srWe, hrst, hcommit]
      have hheld' : (l.update (service enable) (edge enable s i)).held = none := by
        simp [Ledger.update, Ledger.nextHeld, hact]
      constructor
      · constructor
        · rw [Ledger.store_commit hact hq, ← hstore]
          refine (srRead_write hwe hrst).trans ?_
          simp [service, keeper, hallowed, srWaddr, srWdata, hcommit, hindex, hdata]
        · exact hshown'
        · rw [hheld']
          simp only [keeper, step, runState, hrst, hhold, hends, if_true, Bool.false_eq_true,
            if_false, Option.isSome_none]
      · intro q' hq'
        rw [hheld'] at hq'
        cases hq'
    | false =>
      have hact : (edge enable s i).action = .none := by
        simp [edge, hrst, hhold, hfire, habort', hcommit]
      have hwe : srWe enable s i = false := by simp [srWe, hcommit, hwrite]
      have hheld' : (l.update (service enable) (edge enable s i)).held = l.held := by
        simp [Ledger.update, Ledger.nextHeld, hact]
      constructor
      · constructor
        · rw [Ledger.store_idle hact, ← hstore]
          exact srRead_keep hwe hrst
        · exact hshown'
        · rw [hheld', ← hprep]
          simp [keeper, step, runState, hrst, hhold, habort', hcommit]
      · intro q hq
        rw [hheld'] at hq
        simpa [step, runState, hrst, hhold] using h.held q hq

end Proof

/-- The invariant over one edge. -/
theorem inv_step {enable : Bool} {s : State} {l : Ledger Store Request Response} (i : Input)
    (h : Inv enable s l) :
    Inv enable (step enable s i) (l.update (service enable) (edge enable s i)) := by
  cases hrst : i.rstN with
  | false =>
    have hreset : step enable s i = resetState s := by simp [step, hrst]
    rw [hreset]
    apply inv_resetState <;>
      simp [Ledger.update, Ledger.nextSettled, Ledger.nextHeld, edge, hrst]
  | true =>
    cases hfire : requestFire s i with
    | true => exact inv_request h hrst hfire
    | false => exact inv_idle h hrst hfire

/-- **The segment bank is all or nothing.** -/
theorem keeper_allOrNothing (enable : Bool) : (keeper enable).AllOrNothing (service enable) := by
  have hinv : ∀ (r : Run (machine enable)) n,
      Inv enable (r.state n) ((keeper enable).ledger (service enable) r n) := by
    intro r
    apply Keeper.ledger_invariant
    · rintro _ ⟨s₀, rfl⟩
      exact inv_resetState s₀ _ rfl rfl rfl
    · intro s l i h
      exact inv_step i h
  apply Keeper.allOrNothing
  · intro r n
    exact (hinv r n).settles
  · intro r n hprep
    have hfire : requestFire (r.state n) (r.input n) = false :=
      not_requestFire_of_prepared hprep
    have hhold : holdFire enable (r.state n) (r.input n) = false := by simp [holdFire, hfire]
    simp only [keeper, edge, hhold, hfire, Bool.false_eq_true, if_false]
    split_ifs <;> simp

end Segment
end SloPPC603
