import SloPPC603.Clocked.Prepared
import SloPPC603.Translation.BatTranslate

/-!
# The block address translation service

The registers, signals and clock edge of `ppc_bat_service.sv`: the two banks of
block address registers, reads and translations answered on the edge that takes
them, and writes that are captured, answered and then stored or held.

* `service` — what a request does to the two banks and what it is answered.
* `keeper_allOrNothing` — the service performs a prepared write whole, at its
  commit, or not at all.
-/

namespace SloPPC603
namespace Bat

open Clocked

/-! ## Requests -/

/-- The module's parameters. -/
structure Config where
  enableRuntimeBat : Bool := false
  has602 : Bool := false

/-- `bat_req_kind_t`; the unlisted codes are answered as unsupported. -/
inductive BatReqKind
  | translateI
  | translateRead
  | translateWrite
  | sprRead
  | sprWrite
  | prepareWrite
  | unlisted (code : BitVec 3)
  deriving DecidableEq, Repr

/-- The request port, with the default attributes sampled beside it. -/
structure Request where
  kind : BatReqKind
  ea : BitVec 32 := 0
  spr : BitVec 10 := 0
  data : BitVec 32 := 0
  ir : Bool := false
  dr : Bool := false
  pr : Bool := false
  defaultWimg : BitVec 4 := 0
  deriving DecidableEq, Repr

/-- `response_t`. -/
structure Response where
  kind : BatReqKind
  ea : BitVec 32
  spr : BitVec 10
  data : BitVec 32 := 0
  privileged : Bool := false
  unsupported : Bool := false
  writeRejected : Bool := false
  translation : Translation := {}
  deriving DecidableEq, Repr

/-- `upper_q` and `lower_q`, by bank (true is the data bank) and entry. -/
structure Banks where
  upper : Bool → BitVec 2 → BitVec 32
  lower : Bool → BitVec 2 → BitVec 32

/-- The registers after reset. -/
def Banks.zero : Banks := ⟨fun _ _ => 0, fun _ _ => 0⟩

/-- The bank a register number names, by its last four bits. -/
def sprBank (spr : BitVec 4) : Bool := spr.getLsbD 3

/-- The entry it names. -/
def sprEntry (spr : BitVec 4) : BitVec 2 := spr.extractLsb' 1 2

/-- A word of the banks by register number. -/
def Banks.get (b : Banks) (spr : BitVec 4) : BitVec 32 :=
  if spr.getLsbD 0 then b.lower (sprBank spr) (sprEntry spr)
  else b.upper (sprBank spr) (sprEntry spr)

/-- The banks with one word replaced. -/
def Banks.set (b : Banks) (spr : BitVec 4) (data : BitVec 32) : Banks where
  upper := fun k e =>
    if !spr.getLsbD 0 && k = sprBank spr && e = sprEntry spr then data else b.upper k e
  lower := fun k e =>
    if spr.getLsbD 0 && k = sprBank spr && e = sprEntry spr then data else b.lower k e

section Requests

variable (cfg : Config) (q : Request) (b : Banks)

/-- `translation_request`. -/
def translationRequest : Bool :=
  q.kind = .translateI || q.kind = .translateRead || q.kind = .translateWrite

/-- `prepare_request`. -/
def prepareRequest : Bool := cfg.enableRuntimeBat && q.kind = .prepareWrite

/-- `csr_request`. -/
def csrRequest : Bool := q.kind = .sprRead || q.kind = .sprWrite || prepareRequest cfg q

/-- `valid_spr`. -/
def validSpr : Bool := decide (528 ≤ q.spr.toNat) && decide (q.spr.toNat ≤ 543)

/-- `csr_write_candidate`. -/
def csrWriteCandidate : Bool :=
  (q.kind = .sprWrite || prepareRequest cfg q) && validSpr q && !q.pr

/-- The last four bits of the register number. -/
def sprLow : BitVec 4 := q.spr.extractLsb' 0 4

/-- `write_value`: reserved fields are stored as zeros. -/
def writeValue (spr : BitVec 4) (data : BitVec 32) : BitVec 32 :=
  data &&&
    (if !spr.getLsbD 0 then 0xfffe1fff#32
     else if cfg.has602 && !sprBank spr then 0xfffe007b#32 ||| 0x00000600#32
     else 0xfffe007b#32)

/-- The access a translation request makes. -/
def access : Access where
  valid := translationRequest q
  instruction := q.kind = .translateI
  write := q.kind = .translateWrite
  ea := q.ea
  msrIr := q.ir
  msrDr := q.dr
  msrPr := q.pr
  defaultWimg := q.defaultWimg

/-- The translator's answer. -/
def translation : Translation :=
  let bank := q.kind ≠ .translateI
  translate { validateBank := false, has602 := cfg.has602 } (access q)
    (fun i => b.upper bank (BitVec.ofNat 2 i)) (fun i => b.lower bank (BitVec.ofNat 2 i))

/-- `response_d`. -/
def response : Response :=
  let plain : Response := { kind := q.kind, ea := q.ea, spr := q.spr }
  if translationRequest q then { plain with translation := translation cfg q b }
  else if csrRequest cfg q && validSpr q then
    if q.pr then { plain with privileged := true }
    else if q.kind = .sprRead then { plain with data := b.get (sprLow q) }
    else plain
  else { plain with unsupported := true }

/-- `write_response`, from what was captured. -/
def writeResponse (prepare : Bool) (ea : BitVec 32) (spr : BitVec 4) : Response :=
  { kind := if prepare then .prepareWrite else .sprWrite, ea := ea, spr := 0b100001#6 ++ spr }

end Requests

/-! ## Registers and signals -/

/-- The inputs of one cycle. -/
structure Input where
  rstN : Bool := true
  prepareCommit : Bool := false
  prepareAbort : Bool := false
  commitAckReady : Bool := false
  reqValid : Bool := false
  req : Request := { kind := .sprRead }
  rspReady : Bool := false

/-- The registers. -/
structure State where
  banks : Banks
  responseValid : Bool
  response : Response
  prepared : Bool
  preparedSpr : BitVec 4
  preparedData : BitVec 32
  ack : Bool
  write : Bool
  writePrepare : Bool
  writeAbort : Bool
  writeStore : Bool
  writeEa : BitVec 32
  writeSpr : BitVec 4
  writeData : BitVec 32

section Signals

variable (cfg : Config) (s : State) (i : Input)

/-- `req_ready_o`. -/
def reqReady : Bool :=
  i.rstN && !s.prepared && !s.ack && !s.write && !s.writeStore &&
    (!s.responseValid || i.rspReady)

/-- `request_fire`. -/
def requestFire : Bool := i.reqValid && reqReady s i

/-- A write request is captured on this edge. -/
def captureFire : Bool := requestFire s i && csrWriteCandidate cfg i.req

/-- A request is answered on the edge that takes it. -/
def answerFire : Bool := requestFire s i && !csrWriteCandidate cfg i.req

/-- The abort input, in a build that has prepared writes. -/
def abortFire : Bool := cfg.enableRuntimeBat && i.prepareAbort

/-- A prepared write commits on this edge. -/
def commitFire : Bool :=
  cfg.enableRuntimeBat && i.prepareCommit && s.prepared && !i.prepareAbort

/-- A captured write is held on this edge; an abort on either edge prevents it. -/
def holdFire : Bool := s.write && s.writePrepare && !s.writeAbort && !abortFire cfg i

/-! ## The clock edge -/

/-- The registers after an edge in reset. -/
def resetState : State where
  banks := Banks.zero
  responseValid := false
  response := { kind := .translateI, ea := 0, spr := 0 }
  prepared := false
  preparedSpr := 0
  preparedData := 0
  ack := false
  write := false
  writePrepare := false
  writeAbort := false
  writeStore := false
  writeEa := 0
  writeSpr := 0
  writeData := 0

/-- `upper_q` and `lower_q` after the edge; the commit is the last write. -/
def nextBanks : Banks :=
  let stored :=
    if s.writeStore then s.banks.set s.writeSpr (writeValue cfg s.writeSpr s.writeData)
    else s.banks
  if commitFire cfg s i then stored.set s.preparedSpr s.preparedData else stored

/-- The registers after an edge out of reset. -/
def runState : State where
  banks := nextBanks cfg s i
  responseValid :=
    if answerFire cfg s i || s.write then true
    else if i.rspReady then false else s.responseValid
  response :=
    if s.write then writeResponse s.writePrepare s.writeEa s.writeSpr
    else if answerFire cfg s i then response cfg i.req s.banks
    else s.response
  prepared :=
    if abortFire cfg i then false
    else if commitFire cfg s i then false
    else if holdFire cfg s i then true
    else s.prepared
  preparedSpr :=
    if s.write && s.writePrepare && !s.writeAbort then s.writeSpr else s.preparedSpr
  preparedData :=
    if s.write && s.writePrepare && !s.writeAbort then
      writeValue cfg s.writeSpr s.writeData
    else s.preparedData
  ack :=
    if commitFire cfg s i then true else if i.commitAckReady then false else s.ack
  write := if s.write then false else if captureFire cfg s i then true else s.write
  writePrepare := if captureFire cfg s i then prepareRequest cfg i.req else s.writePrepare
  writeAbort := if captureFire cfg s i then i.prepareAbort else s.writeAbort
  writeStore :=
    if s.writeStore then false
    else if s.write && !s.writePrepare then true else s.writeStore
  writeEa := if captureFire cfg s i then i.req.ea else s.writeEa
  writeSpr := if captureFire cfg s i then sprLow i.req else s.writeSpr
  writeData := if captureFire cfg s i then i.req.data else s.writeData

/-- One clock edge. -/
def step : State := if i.rstN then runState cfg s i else resetState

end Signals

/-- The service as a clocked machine, started by an edge in reset. -/
def machine (cfg : Config) : Machine State Input where
  Initial := fun s => s = resetState
  step := step cfg

/-! ## The store -/

/-- What a request does to the banks and what it is answered. -/
def service (cfg : Config) : Service Banks Request Response where
  perform := fun q b =>
    if csrWriteCandidate cfg q then b.set (sprLow q) (writeValue cfg (sprLow q) q.data) else b
  answer := fun q b =>
    if csrWriteCandidate cfg q then writeResponse (prepareRequest cfg q) q.ea (sprLow q)
    else response cfg q b

/-- What an edge does with requests. -/
def edge (cfg : Config) (s : State) (i : Input) : Edge Banks Request where
  taken := if requestFire s i then some i.req else none
  answers := answerFire cfg s i || s.write
  action :=
    if !i.rstN then .reset Banks.zero
    else if holdFire cfg s i then .hold
    else if s.writeStore then .perform
    else if commitFire cfg s i then .commit
    else if abortFire cfg i then .abort
    else .none

/-- The service as a keeper of the banks. -/
def keeper (cfg : Config) : Keeper (machine cfg) Banks Request Response where
  store := State.banks
  edge := edge cfg
  shown := fun s => if s.responseValid then some s.response else none
  prepared := State.prepared

/-! ## The invariant -/

/-- The write registers hold the request `q`. -/
structure Captured (cfg : Config) (s : State) (q : Request) : Prop where
  candidate : csrWriteCandidate cfg q = true
  ea : s.writeEa = q.ea
  spr : s.writeSpr = sprLow q
  data : s.writeData = q.data
  prepare : s.writePrepare = prepareRequest cfg q

/-- The registers against the ledger. -/
structure Inv (cfg : Config) (s : State) (l : Ledger Banks Request Response) : Prop where
  settles : (keeper cfg).Settles (service cfg) s l
  /-- A captured write, an answered one and a held one are different stages. -/
  write_alone : s.write = true → s.writeStore = false ∧ s.prepared = false
  store_alone : s.writeStore = true → s.prepared = false
  captured : s.write = true ∨ s.writeStore = true → ∃ q, l.taken = some q ∧ Captured cfg s q
  /-- What is held is a write request, its stored value in the reservation's registers. -/
  held : ∀ q, l.held = some q → csrWriteCandidate cfg q = true ∧ s.preparedSpr = sprLow q ∧
    s.preparedData = writeValue cfg (sprLow q) q.data

section Proof

variable {cfg : Config} {s : State} {i : Input} {l : Ledger Banks Request Response}

/-- A request is only taken with nothing captured, stored or held. -/
theorem idle_of_requestFire (h : requestFire s i = true) :
    s.write = false ∧ s.writeStore = false ∧ s.prepared = false := by
  simp only [requestFire, reqReady, Bool.and_eq_true, Bool.not_eq_true'] at h
  exact ⟨h.2.1.1.2, h.2.1.2, h.2.1.1.1.1.2⟩

theorem not_requestFire (h : s.write = true ∨ s.writeStore = true ∨ s.prepared = true) :
    requestFire s i = false := by
  rw [← Bool.not_eq_true]
  intro hfire
  have hidle := idle_of_requestFire hfire
  rcases h with h | h | h <;> simp [h] at hidle

/-- The reset state agrees with a ledger that starts from cleared banks. -/
theorem inv_resetState (l : Ledger Banks Request Response) (hbase : l.base = Banks.zero)
    (hnone : l.settled = []) (hheld : l.held = none) : Inv cfg resetState l := by
  refine ⟨⟨?_, ?_, ?_⟩, ?_, ?_, ?_, ?_⟩
  · rw [Ledger.store, hnone, hbase]
    rfl
  · intro a ha
    simp [keeper, resetState] at ha
  · rw [hheld]
    rfl
  · simp [resetState]
  · simp [resetState]
  · simp [resetState]
  · intro q hq
    simp [hheld] at hq

variable (h : Inv cfg s l) (hrst : i.rstN = true)
include h hrst

omit hrst in
theorem held_none (hp : s.prepared = false) : l.held = none := by
  rw [← Option.not_isSome_iff_eq_none, ← h.settles.held]
  simp [keeper, hp]

/-- An edge that takes a request answers it, or captures a write. -/
theorem inv_request (hfire : requestFire s i = true) :
    Inv cfg (step cfg s i) (l.update (service cfg) (edge cfg s i)) := by
  obtain ⟨hwrite, hstored, hprep⟩ := idle_of_requestFire hfire
  have hnone := held_none h hprep
  have hcommit : commitFire cfg s i = false := by simp [commitFire, hprep]
  have hhold : holdFire cfg s i = false := by simp [holdFire, hwrite]
  have hcur : l.current (edge cfg s i) = some i.req := by simp [Ledger.current, edge, hfire]
  have hact : (edge cfg s i).action = if abortFire cfg i then .abort else .none := by
    simp [edge, hrst, hhold, hstored, hcommit]
  have hstore : (l.update (service cfg) (edge cfg s i)).store (service cfg) = s.banks := by
    refine Eq.trans ?_ h.settles.store.symm
    cases hab : abortFire cfg i with
    | true => exact Ledger.store_abort (by rw [hact, hab, if_pos rfl])
    | false => exact Ledger.store_idle (by rw [hact, hab, if_neg Bool.false_ne_true])
  have hheld : (l.update (service cfg) (edge cfg s i)).held = none := by
    cases hab : abortFire cfg i <;> simp [Ledger.update, Ledger.nextHeld, hact, hab, hnone]
  have hprep' : (step cfg s i).prepared = false := by
    simp [step, runState, hrst, hhold, hprep]
  refine ⟨⟨?_, ?_, ?_⟩, ?_, ?_, ?_, ?_⟩
  · rw [hstore]
    simp [keeper, step, runState, hrst, nextBanks, hstored, hcommit]
  · intro a ha
    cases hcand : csrWriteCandidate cfg i.req with
    | true =>
      have hcap : captureFire cfg s i = true := by simp [captureFire, hfire, hcand]
      have hans : answerFire cfg s i = false := by simp [answerFire, hfire, hcand]
      have ha' : (keeper cfg).shown s = some a := by
        cases hv : s.responseValid <;> cases hr : i.rspReady <;>
          simp_all [keeper, step, runState]
      simpa [Ledger.update, edge, hans, hwrite] using h.settles.shown a ha'
    | false =>
      have hans : answerFire cfg s i = true := by simp [answerFire, hfire, hcand]
      have ha' : response cfg i.req s.banks = a := by
        simpa [keeper, step, runState, hrst, hans, hwrite] using ha
      have hdue : (l.update (service cfg) (edge cfg s i)).shown =
          some ((service cfg).answer i.req (l.store (service cfg))) := by
        simp [Ledger.update, edge, hans, hfire, Ledger.current]
      rw [hdue, ← h.settles.store, ← ha']
      simp [service, hcand, keeper]
  · rw [hheld]
    exact hprep'
  · intro _
    exact ⟨by simp [step, runState, hrst, hstored, hwrite], hprep'⟩
  · intro _
    exact hprep'
  · rintro (hw | hw)
    · have hcap : captureFire cfg s i = true := by
        simpa [step, runState, hrst, hwrite] using hw
      have hcand : csrWriteCandidate cfg i.req = true := by
        simp only [captureFire, Bool.and_eq_true] at hcap
        exact hcap.2
      refine ⟨i.req, hcur, hcand, ?_, ?_, ?_, ?_⟩ <;> simp [step, runState, hrst, hcap]
    · simp [step, runState, hrst, hstored, hwrite] at hw
  · intro q hq
    rw [hheld] at hq
    cases hq

/-- A captured write is answered, and held or passed on to be stored. -/
theorem inv_write (hwrite : s.write = true) :
    Inv cfg (step cfg s i) (l.update (service cfg) (edge cfg s i)) := by
  obtain ⟨hstored, hprep⟩ := h.write_alone hwrite
  obtain ⟨q, htaken, hcap⟩ := h.captured (Or.inl hwrite)
  have hnone := held_none h hprep
  have hcommit : commitFire cfg s i = false := by simp [commitFire, hprep]
  have hfire := @not_requestFire s i (Or.inl hwrite)
  have hcapture : captureFire cfg s i = false := by simp [captureFire, hfire]
  have hcur : l.current (edge cfg s i) = some q := by simp [Ledger.current, edge, hfire, htaken]
  have hact : (edge cfg s i).action =
      if holdFire cfg s i then .hold else if abortFire cfg i then .abort else .none := by
    simp [edge, hrst, hstored, hcommit]
  have hstore : (l.update (service cfg) (edge cfg s i)).store (service cfg) = s.banks := by
    refine Eq.trans ?_ h.settles.store.symm
    cases hh : holdFire cfg s i with
    | true => exact Ledger.store_hold (by rw [hact, hh, if_pos rfl])
    | false =>
      cases hab : abortFire cfg i with
      | true => exact Ledger.store_abort (by rw [hact, hh, hab]; rfl)
      | false => exact Ledger.store_idle (by rw [hact, hh, hab]; rfl)
  have hheld : (l.update (service cfg) (edge cfg s i)).held =
      if holdFire cfg s i then some q else none := by
    cases hh : holdFire cfg s i <;> cases hab : abortFire cfg i <;>
      simp [Ledger.update, Ledger.nextHeld, hact, hh, hab, hnone, hcur]
  have hprep' : (step cfg s i).prepared = holdFire cfg s i := by
    cases hab : abortFire cfg i <;>
      simp [step, runState, hrst, hcommit, hprep, holdFire, hab]
  have hwrite' : (step cfg s i).write = false := by simp [step, runState, hrst, hwrite]
  refine ⟨⟨?_, ?_, ?_⟩, ?_, ?_, ?_, ?_⟩
  · rw [hstore]
    simp [keeper, step, runState, hrst, nextBanks, hstored, hcommit]
  · intro a ha
    have ha' : writeResponse s.writePrepare s.writeEa s.writeSpr = a := by
      simpa [keeper, step, runState, hrst, hwrite] using ha
    have hdue : (l.update (service cfg) (edge cfg s i)).shown =
        some ((service cfg).answer q (l.store (service cfg))) := by
      simp [Ledger.update, edge, hwrite, hfire, Ledger.current, htaken]
    rw [hdue, ← ha']
    simp [service, hcap.candidate, hcap.prepare, hcap.ea, hcap.spr]
  · rw [hheld]
    exact hprep'.trans (by cases holdFire cfg s i <;> rfl)
  · intro hw
    simp [hwrite'] at hw
  · intro hw
    have hno : s.writePrepare = false := by
      simpa [step, runState, hrst, hstored, hwrite] using hw
    rw [hprep']
    simp [holdFire, hno]
  · intro _
    refine ⟨q, ?_, hcap.candidate, ?_, ?_, ?_, ?_⟩
    · simp [Ledger.update, hcur]
    all_goals simp [step, runState, hrst, hcapture, hcap.ea, hcap.spr, hcap.data, hcap.prepare]
  · intro q' hq'
    rw [hheld] at hq'
    cases hh : holdFire cfg s i with
    | false => simp [hh] at hq'
    | true =>
      rw [hh, if_pos rfl] at hq'
      obtain rfl : q = q' := Option.some.inj hq'
      simp only [holdFire, Bool.and_eq_true] at hh
      refine ⟨hcap.candidate, ?_, ?_⟩
      · simp [step, runState, hrst, hh, ← hcap.spr]
      · simp [step, runState, hrst, hh, ← hcap.spr, ← hcap.data]

/-- An answered write is stored. -/
theorem inv_store (hstored : s.writeStore = true) :
    Inv cfg (step cfg s i) (l.update (service cfg) (edge cfg s i)) := by
  have hprep := h.store_alone hstored
  have hwrite : s.write = false := by
    rw [← Bool.not_eq_true]
    intro hw
    simp [h.write_alone hw] at hstored
  obtain ⟨q, htaken, hcap⟩ := h.captured (Or.inr hstored)
  have hnone := held_none h hprep
  have hcommit : commitFire cfg s i = false := by simp [commitFire, hprep]
  have hhold : holdFire cfg s i = false := by simp [holdFire, hwrite]
  have hfire := @not_requestFire s i (Or.inr (Or.inl hstored))
  have hcapture : captureFire cfg s i = false := by simp [captureFire, hfire]
  have hans : answerFire cfg s i = false := by simp [answerFire, hfire]
  have hcur : l.current (edge cfg s i) = some q := by simp [Ledger.current, edge, hfire, htaken]
  have hact : (edge cfg s i).action = .perform := by simp [edge, hrst, hhold, hstored]
  have hheld : (l.update (service cfg) (edge cfg s i)).held = none := by
    simp [Ledger.update, Ledger.nextHeld, hact, hnone]
  have hprep' : (step cfg s i).prepared = false := by simp [step, runState, hrst, hhold, hprep]
  refine ⟨⟨?_, ?_, ?_⟩, ?_, ?_, ?_, ?_⟩
  · rw [Ledger.store_perform hact hcur, ← h.settles.store]
    simp [keeper, step, runState, hrst, nextBanks, hstored, hcommit, service, hcap.candidate,
      hcap.spr, hcap.data]
  · intro a ha
    have ha' : (keeper cfg).shown s = some a := by
      cases hv : s.responseValid <;> cases hr : i.rspReady <;>
        simp_all [keeper, step, runState]
    simpa [Ledger.update, edge, hans, hwrite] using h.settles.shown a ha'
  · rw [hheld]
    exact hprep'
  · intro hw
    simp [step, runState, hrst, hwrite, hcapture] at hw
  · intro _
    exact hprep'
  · rintro (hw | hw)
    · simp [step, runState, hrst, hwrite, hcapture] at hw
    · simp [step, runState, hrst, hstored] at hw
  · intro q' hq'
    rw [hheld] at hq'
    cases hq'

/-- An edge with nothing taken, captured or stored: a held write may commit or be
dropped. -/
theorem inv_idle (hfire : requestFire s i = false) (hwrite : s.write = false)
    (hstored : s.writeStore = false) :
    Inv cfg (step cfg s i) (l.update (service cfg) (edge cfg s i)) := by
  have hhold : holdFire cfg s i = false := by simp [holdFire, hwrite]
  have hcapture : captureFire cfg s i = false := by simp [captureFire, hfire]
  have hans : answerFire cfg s i = false := by simp [answerFire, hfire]
  have hact : (edge cfg s i).action =
      if commitFire cfg s i then .commit else if abortFire cfg i then .abort else .none := by
    simp [edge, hrst, hhold, hstored]
  have hwrite' : (step cfg s i).write = false := by
    simp [step, runState, hrst, hwrite, hcapture]
  have hstored' : (step cfg s i).writeStore = false := by
    simp [step, runState, hrst, hwrite, hstored]
  have hshown : ∀ a, (keeper cfg).shown (step cfg s i) = some a →
      (l.update (service cfg) (edge cfg s i)).shown = some a := by
    intro a ha
    have ha' : (keeper cfg).shown s = some a := by
      cases hv : s.responseValid <;> cases hr : i.rspReady <;>
        simp_all [keeper, step, runState]
    simpa [Ledger.update, edge, hans, hwrite] using h.settles.shown a ha'
  have hheld : (l.update (service cfg) (edge cfg s i)).held =
      if commitFire cfg s i || abortFire cfg i then none else l.held := by
    cases hc : commitFire cfg s i <;> cases hab : abortFire cfg i <;>
      simp [Ledger.update, Ledger.nextHeld, hact, hc, hab]
  have hprep' : (step cfg s i).prepared =
      if commitFire cfg s i || abortFire cfg i then false else s.prepared := by
    cases hc : commitFire cfg s i <;> cases hab : abortFire cfg i <;>
      simp [step, runState, hrst, hhold, hc, hab]
  refine ⟨⟨?_, hshown, ?_⟩, ?_, ?_, ?_, ?_⟩
  · cases hc : commitFire cfg s i with
    | true =>
      have hp : s.prepared = true := by
        simp only [commitFire, Bool.and_eq_true] at hc
        exact hc.1.2
      obtain ⟨q, hq⟩ : ∃ q, l.held = some q := by
        rw [← Option.isSome_iff_exists, ← h.settles.held]
        exact hp
      obtain ⟨hcand, hspr, hdata⟩ := h.held q hq
      rw [Ledger.store_commit (by rw [hact, hc, if_pos rfl]) hq, ← h.settles.store]
      simp [keeper, step, runState, hrst, nextBanks, hstored, hc, service, hcand, hspr, hdata]
    | false =>
      have hkeep : (l.update (service cfg) (edge cfg s i)).store (service cfg) =
          l.store (service cfg) := by
        cases hab : abortFire cfg i with
        | true => exact Ledger.store_abort (by rw [hact, hc, hab]; rfl)
        | false => exact Ledger.store_idle (by rw [hact, hc, hab]; rfl)
      rw [hkeep, ← h.settles.store]
      simp [keeper, step, runState, hrst, nextBanks, hstored, hc]
  · have hold := h.settles.held
    rw [hheld]
    refine hprep'.trans ?_
    cases (commitFire cfg s i || abortFire cfg i) with
    | true => rfl
    | false => exact hold
  · intro hw
    simp [hwrite'] at hw
  · intro hw
    simp [hstored'] at hw
  · rintro (hw | hw)
    · simp [hwrite'] at hw
    · simp [hstored'] at hw
  · intro q hq
    have hq' : l.held = some q := by
      rw [hheld] at hq
      cases hx : (commitFire cfg s i || abortFire cfg i) <;> simp_all
    simpa [step, runState, hrst, hwrite] using h.held q hq'

end Proof

/-- The invariant over one edge. -/
theorem inv_step {cfg : Config} {s : State} {l : Ledger Banks Request Response} (i : Input)
    (h : Inv cfg s l) : Inv cfg (step cfg s i) (l.update (service cfg) (edge cfg s i)) := by
  cases hrst : i.rstN with
  | false =>
    have hreset : step cfg s i = resetState := by simp [step, hrst]
    rw [hreset]
    apply inv_resetState <;>
      simp [Ledger.update, Ledger.nextSettled, Ledger.nextHeld, edge, hrst]
  | true =>
    by_cases hwrite : s.write = true
    · exact inv_write h hrst hwrite
    by_cases hstored : s.writeStore = true
    · exact inv_store h hrst hstored
    by_cases hfire : requestFire s i = true
    · exact inv_request h hrst hfire
    · exact inv_idle h hrst (by simpa using hfire) (by simpa using hwrite) (by simpa using hstored)

/-- The invariant holds all along a run. -/
theorem inv_run {cfg : Config} (r : Run (machine cfg)) (n : ℕ) :
    Inv cfg (r.state n) ((keeper cfg).ledger (service cfg) r n) := by
  revert n
  apply Keeper.ledger_invariant
  · rintro _ rfl
    exact inv_resetState _ rfl rfl rfl
  · intro s l i h
    exact inv_step i h

/-- **The block address translation service is all or nothing.** -/
theorem keeper_allOrNothing (cfg : Config) : (keeper cfg).AllOrNothing (service cfg) := by
  apply Keeper.allOrNothing
  · intro r n
    exact (inv_run r n).settles
  · intro r n hprep
    have hprep' : (r.state n).prepared = true := hprep
    have hinv := inv_run r n
    have hwrite : (r.state n).write = false := by
      rw [← Bool.not_eq_true]
      intro hw
      simp [hinv.write_alone hw] at hprep'
    have hstored : (r.state n).writeStore = false := by
      rw [← Bool.not_eq_true]
      intro hw
      simp [hinv.store_alone hw] at hprep'
    simp only [keeper, edge, holdFire, hwrite, hstored, Bool.false_and, Bool.false_eq_true,
      if_false]
    split_ifs <;> simp

end Bat
end SloPPC603
