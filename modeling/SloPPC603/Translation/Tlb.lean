import Mathlib.Algebra.Group.Nat.Defs
import SloPPC603.Pkg
import SloPPC603.Clocked.Prepared

/-!
# The translation lookaside buffers

The registers, signals and clock edge of `ppc_tlb_service.sv` with its entry RAMs
(`ppc_tlb_ram.sv`): two ways of software-loaded page entries for each bank, a
lookup register between the read and its classification, and one reservation.

* `service` — what a request does to the valid bits, the entries and the LRU bits,
  and what it is answered.
* `keeper_allOrNothing` — the service performs a prepared load or invalidation
  whole, at its commit, or not at all.

A bank is true for data and a way for way 1.  A set index and a page tag are
natural numbers below the powers of two their widths give.
-/

namespace SloPPC603
namespace Tlb

open Clocked

/-! ## Requests, entries and responses -/

/-- The module's parameters; `TLB_SETS` is two to the power `setW`. -/
structure Config where
  enableRuntimeInvalidate : Bool := false
  enableRuntimeRefill : Bool := false
  setW : ℕ := 5
  has602 : Bool := false

/-- Prepared requests of either kind. -/
def Config.runtime (cfg : Config) : Bool :=
  cfg.enableRuntimeInvalidate || cfg.enableRuntimeRefill

/-- `tlb_req_kind_t`; the reserved and the unlisted codes are answered as
unsupported. -/
inductive TlbReqKind
  | lookup
  | refill
  | invalidateSet
  | reserved
  | prepareInvalidate
  | prepareRefill
  | unlisted (code : BitVec 3)
  deriving DecidableEq, Repr

/-- The request port, and `request_t` less its abort flag. -/
structure Request where
  kind : TlbReqKind
  bank : Bool := false
  ea : BitVec 32 := 0
  vsid : BitVec 24 := 0
  pr : Bool := false
  ks : Bool := false
  kp : Bool := false
  n : Bool := false
  t : Bool := false
  write : Bool := false
  way : Bool := false
  rpn : BitVec 20 := 0
  c : Bool := false
  wimg : BitVec 4 := 0
  pp : BitVec 2 := 0
  po : Bool := false
  ext : BitVec 5 := 0
  deriving DecidableEq, Repr

/-- `entry_t`; the extension of a build without the 602's bits is zero. -/
structure Entry where
  vsid : BitVec 24
  pageTag : ℕ
  rpn : BitVec 20
  c : Bool
  wimg : BitVec 4
  pp : BitVec 2
  ext : BitVec 6
  deriving DecidableEq, Repr, Inhabited

/-- `response_t`. -/
structure Response where
  kind : TlbReqKind
  bank : Bool
  ea : BitVec 32
  allowAccess : Bool := false
  hit : Bool := false
  miss : Bool := false
  protectionFault : Bool := false
  guardedFault : Bool := false
  noExecute : Bool := false
  directStore : Bool := false
  needsChanged : Bool := false
  privileged : Bool := false
  refillRejected : Bool := false
  unsupported : Bool := false
  invalidInput : Bool := false
  matched : BitVec 2 := 0
  way : Bool := false
  pa : BitVec 32 := 0
  wimg : BitVec 4 := 0
  pp : BitVec 2 := 0
  c : Bool := false
  r : Bool := false
  esa : EsaEnable := .denied
  deriving DecidableEq, Repr

/-- The set index of an address. -/
def setOf (cfg : Config) (ea : BitVec 32) (po : Bool) : ℕ :=
  if cfg.has602 && po then (ea.extractLsb' 17 cfg.setW).toNat
  else (ea.extractLsb' 12 cfg.setW).toNat

/-- The page tag of an address. -/
def tagOf (cfg : Config) (ea : BitVec 32) (po : Bool) : ℕ :=
  if cfg.has602 && po then (ea.extractLsb' 21 11).toNat % 2 ^ (16 - cfg.setW)
  else (ea.extractLsb' (12 + cfg.setW) (16 - cfg.setW)).toNat

/-- The request as it is captured: the 602's fields are dropped in other builds. -/
def capture (cfg : Config) (q : Request) : Request :=
  { q with po := cfg.has602 && q.po, ext := if cfg.has602 then q.ext else 0 }

/-- `set_index`. -/
def setIndex (cfg : Config) (q : Request) : ℕ := setOf cfg q.ea q.po

/-- `refill_entry`. -/
def refillEntry (cfg : Config) (q : Request) : Entry where
  vsid := q.vsid
  pageTag := tagOf cfg q.ea q.po
  rpn := q.rpn
  c := q.c
  wimg := q.wimg
  pp := q.pp
  ext := if cfg.has602 then BitVec.ofBool q.po ++ q.ext else 0

/-! ## Classification -/

/-- What the classification of a request sees: the two ways of its set and the
set's LRU bit. -/
structure View where
  valid : Bool → Bool
  entry : Bool → Entry
  lru : Bool

section Classify

variable (cfg : Config) (q : Request) (v : View)

/-- `matched` of one way. -/
def wayMatch (way : Bool) : Bool :=
  v.valid way && (v.entry way).vsid = q.vsid && (v.entry way).pageTag = tagOf cfg q.ea q.po &&
    (!cfg.has602 || (v.entry way).ext.getLsbD 5 = q.po)

/-- `matched`. -/
def matched : BitVec 2 :=
  BitVec.ofBool (wayMatch cfg q v true) ++ BitVec.ofBool (wayMatch cfg q v false)

/-- `selected_way`. -/
def selectedWay : Bool := wayMatch cfg q v true

/-- `selected_entry`. -/
def selectedEntry : Entry := v.entry (selectedWay cfg q v)

/-- `selected_word`: the loaded RPA word of a 602 entry. -/
def selectedWord : BitVec 32 :=
  let e := selectedEntry cfg q v
  if cfg.has602 then
    e.rpn ++ e.ext.extractLsb' 1 4 ++ BitVec.ofBool e.c ++ e.wimg ++ e.ext.extractLsb' 0 1 ++ e.pp
  else 0

/-- `selected_ne`. -/
def selectedNe : Bool := cfg.has602 && (selectedWord cfg q v).getLsbD 10

/-- `selected_se`. -/
def selectedSe : Bool := cfg.has602 && (selectedWord cfg q v).getLsbD 9

/-- `po_bit`: a protection-only entry's bit for the page of the address. -/
def poBit : Bool :=
  cfg.has602 && (selectedWord cfg q v).getLsbD (31 - (q.ea.extractLsb' 12 5).toNat)

/-- `selected_key`. -/
def selectedKey : Bool := if q.pr then q.kp else q.ks

/-- `protection_denied`. -/
def protectionDenied : Bool :=
  let pp := (selectedEntry cfg q v).pp
  (selectedKey q && pp = 0) || (q.write && (pp = 3 || (selectedKey q && pp = 1)))

/-- The fields every response starts from. -/
def plain : Response := { kind := q.kind, bank := q.bank, ea := q.ea }

/-- A hit on the selected way. -/
def hitResponse : Response :=
  { plain q with hit := true, matched := matched cfg q v, way := selectedWay cfg q v, r := true }

/-- A miss names the way to replace next. -/
def missResponse : Response := { plain q with miss := true, way := v.lru }

/-- A protection-only lookup of the 602. -/
def poLookup : Response :=
  if !selectedKey q then
    { plain q with
      hit := true, allowAccess := true, pa := q.ea, r := true, c := true
      esa := if !q.bank then .poBase else .denied }
  else if matched cfg q v = 0 then missResponse q v
  else if matched cfg q v = 3 then { plain q with invalidInput := true }
  else
    let hit := { hitResponse cfg q v with c := true }
    if !q.bank && poBit cfg q v then { hit with noExecute := true }
    else if q.bank && q.write && !poBit cfg q v then { hit with protectionFault := true }
    else
      { hit with allowAccess := true, pa := q.ea, esa := if !q.bank then .poSer else .denied }

/-- A page lookup. -/
def pageLookup : Response :=
  if q.t then { plain q with directStore := true }
  else if !q.bank && q.n then { plain q with noExecute := true }
  else if matched cfg q v = 0 then missResponse q v
  else if matched cfg q v = 3 then { plain q with invalidInput := true }
  else
    let e := selectedEntry cfg q v
    let hit := { hitResponse cfg q v with wimg := e.wimg, pp := e.pp, c := e.c }
    if !q.bank && selectedNe cfg q v then { hit with noExecute := true }
    else if protectionDenied cfg q v then { hit with protectionFault := true }
    else if !q.bank && e.wimg.getLsbD 0 then { hit with guardedFault := true }
    else if q.write && !e.c then { hit with needsChanged := true }
    else
      { hit with
        allowAccess := true, pa := e.rpn ++ q.ea.extractLsb' 0 12
        esa := if !q.bank && selectedSe cfg q v then .allowed else .denied }

/-- A request that changes the entries: refused below its privilege level. -/
def updateResponse : Response := { plain q with privileged := q.pr }

/-- `response_d`. -/
def respond : Response :=
  match q.kind with
  | .lookup =>
    if !q.bank && q.write then { plain q with invalidInput := true }
    else if cfg.has602 && q.po then poLookup cfg q v
    else pageLookup cfg q v
  | .refill | .invalidateSet => updateResponse q
  | .prepareInvalidate =>
    if !cfg.enableRuntimeInvalidate then { plain q with unsupported := true }
    else updateResponse q
  | .prepareRefill =>
    if !cfg.enableRuntimeRefill then { plain q with unsupported := true } else updateResponse q
  | .reserved | .unlisted _ => { plain q with unsupported := true }

/-- A request that prepares an update this build and privilege level allow. -/
def prepareAllowed : Bool :=
  !q.pr && ((q.kind = .prepareInvalidate && cfg.enableRuntimeInvalidate) ||
    (q.kind = .prepareRefill && cfg.enableRuntimeRefill))

/-- The lookup moves the LRU bit off the way it hit. -/
def touches : Bool := (respond cfg q v).hit && matched cfg q v ≠ 0

end Classify

/-! ## Registers and signals -/

/-- The inputs of one cycle. -/
structure Input where
  rstN : Bool := true
  prepareCommit : Bool := false
  prepareAbort : Bool := false
  commitAckReady : Bool := false
  reqValid : Bool := false
  req : Request := { kind := .lookup }
  rspReady : Bool := false

/-- What lookups depend on: valid bits by bank, way and set, LRU bits by bank and
set, entries by bank, way and set. -/
structure Store where
  valid : Bool → Bool → ℕ → Bool
  lru : Bool → ℕ → Bool
  entries : Bool → Bool → ℕ → Entry

/-- The registers and the entry RAMs. -/
structure State where
  store : Store
  entryRd : Bool → Entry
  request : Request
  requestAbort : Bool
  lookup : Bool
  responseValid : Bool
  response : Response
  prepared : Bool
  preparedIsRefill : Bool
  preparedBank : Bool
  preparedWay : Bool
  preparedDuplicate : Bool
  preparedSet : ℕ
  preparedEntry : Entry
  commitAck : Bool

section Signals

variable (cfg : Config) (s : State) (i : Input)

/-- The response slot is empty or drains on this edge. -/
def rspFree : Bool := !s.responseValid || i.rspReady

/-- `req_ready_o`. -/
def reqReady : Bool := i.rstN && !s.prepared && !s.commitAck && !s.lookup && rspFree s i

/-- `request_fire`. -/
def requestFire : Bool := i.reqValid && reqReady s i

/-- What the registered read shows of the captured request's set. -/
def readView : View where
  valid := fun way => s.store.valid s.request.bank way (setIndex cfg s.request)
  entry := s.entryRd
  lru := s.store.lru s.request.bank (setIndex cfg s.request)

/-- `fill_commit`. -/
def fillCommit : Bool := s.request.kind = .refill && !s.request.pr && s.lookup

/-- `invalidate_commit`. -/
def invalidateCommit : Bool := s.request.kind = .invalidateSet && !s.request.pr && s.lookup

/-- `prepare_invalidate` or `prepare_refill`: the captured request is held. -/
def holdFire : Bool :=
  s.lookup && prepareAllowed cfg s.request && !s.requestAbort && !i.prepareAbort

/-- A prepared update commits on this edge. -/
def commitFire : Bool :=
  cfg.runtime && !i.prepareAbort && i.prepareCommit && s.prepared && rspFree s i

/-- The abort input, in a build that has prepared updates. -/
def abortFire : Bool := cfg.runtime && i.prepareAbort

/-! ## The store after an edge -/

/-- A set with one way loaded: the other way's duplicate goes, and the LRU bit
points away from the way loaded. -/
def Store.fillFlags (t : Store) (bank way duplicate : Bool) (set : ℕ) : Store :=
  { t with
    valid := fun b w x =>
      if b = bank ∧ w = way ∧ x = set then true
      else if duplicate = true ∧ b = bank ∧ w = !way ∧ x = set then false
      else t.valid b w x
    lru := fun b x => if b = bank ∧ x = set then !way else t.lru b x }

/-- One entry RAM location written. -/
def Store.writeEntry (t : Store) (bank way : Bool) (set : ℕ) (e : Entry) : Store :=
  { t with
    entries := fun b w x => if b = bank ∧ w = way ∧ x = set then e else t.entries b w x }

/-- The four valid bits of a set cleared, with no comparison. -/
def Store.clearSet (t : Store) (set : ℕ) : Store :=
  { t with valid := fun b w x => if x = set then false else t.valid b w x }

/-- The LRU bit moved off a way that was hit. -/
def Store.touch (t : Store) (bank way : Bool) (set : ℕ) : Store :=
  { t with lru := fun b x => if b = bank ∧ x = set then !way else t.lru b x }

/-- The flags after a commit. -/
def commitFlags : Store :=
  if s.preparedIsRefill then
    s.store.fillFlags s.preparedBank s.preparedWay s.preparedDuplicate s.preparedSet
  else s.store.clearSet s.preparedSet

/-- The flags after the classification of the captured request, on top of `t`. -/
def lookupFlags (t : Store) : Store :=
  let q := s.request
  let v := readView cfg s
  let filled :=
    if fillCommit s then t.fillFlags q.bank q.way (wayMatch cfg q v !q.way) (setIndex cfg q) else t
  let touched :=
    if touches cfg q v then filled.touch q.bank (selectedWay cfg q v) (setIndex cfg q) else filled
  if invalidateCommit s then touched.clearSet (setIndex cfg q) else touched

/-- `valid_q` and `lru_q` after an edge out of reset. -/
def nextFlags : Store :=
  let committed := if commitFire cfg s i then commitFlags s else s.store
  if s.lookup then lookupFlags cfg s committed else committed

/-- The entry RAMs' write port: a prepared refill's commit, else an immediate one. -/
def writeRam (t : Store) : Store :=
  if commitFire cfg s i && s.preparedIsRefill then
    t.writeEntry s.preparedBank s.preparedWay s.preparedSet s.preparedEntry
  else if fillCommit s then
    t.writeEntry s.request.bank s.request.way (setIndex cfg s.request)
      (refillEntry cfg s.request)
  else t

/-! ## The clock edge -/

/-- The entry RAMs' registered read, which needs no request. -/
def nextEntryRd : Bool → Entry :=
  fun way => s.store.entries i.req.bank way (setOf cfg i.req.ea i.req.po)

/-- The registers after an edge in reset; the entries are not reset. -/
def resetState : State where
  store := writeRam cfg s i { s.store with valid := fun _ _ _ => false, lru := fun _ _ => false }
  entryRd := nextEntryRd cfg s i
  request := { kind := .lookup }
  requestAbort := false
  lookup := false
  responseValid := false
  response := { kind := .lookup, bank := false, ea := 0 }
  prepared := false
  preparedIsRefill := false
  preparedBank := false
  preparedWay := false
  preparedDuplicate := false
  preparedSet := 0
  preparedEntry := ⟨0, 0, 0, false, 0, 0, 0⟩
  commitAck := false

/-- The registers after an edge out of reset. -/
def runState : State :=
  let holdRefill := holdFire cfg s i && s.request.kind = .prepareRefill
  { store := writeRam cfg s i (nextFlags cfg s i)
    entryRd := nextEntryRd cfg s i
    request := if requestFire s i then capture cfg i.req else s.request
    requestAbort := if requestFire s i then i.prepareAbort else s.requestAbort
    lookup := if s.lookup then false else requestFire s i
    responseValid :=
      if s.lookup then true else if i.rspReady then false else s.responseValid
    response := if s.lookup then respond cfg s.request (readView cfg s) else s.response
    prepared :=
      if holdFire cfg s i then true
      else if abortFire cfg i || commitFire cfg s i then false
      else s.prepared
    preparedIsRefill := if holdFire cfg s i then holdRefill else s.preparedIsRefill
    preparedBank := if holdRefill then s.request.bank else s.preparedBank
    preparedWay := if holdRefill then s.request.way else s.preparedWay
    preparedDuplicate :=
      if holdRefill then wayMatch cfg s.request (readView cfg s) !s.request.way
      else s.preparedDuplicate
    preparedSet := if holdFire cfg s i then setIndex cfg s.request else s.preparedSet
    preparedEntry := if holdRefill then refillEntry cfg s.request else s.preparedEntry
    commitAck :=
      if commitFire cfg s i then true
      else if cfg.runtime && i.commitAckReady then false
      else s.commitAck }

/-- One clock edge. -/
def step : State := if i.rstN then runState cfg s i else resetState cfg s i

end Signals

/-- The service as a clocked machine, started by an edge in reset. -/
def machine (cfg : Config) : Machine State Input where
  Initial := fun s => ∃ s₀ i, i.rstN = false ∧ s = step cfg s₀ i
  step := step cfg

/-! ## The store -/

/-- What the classification of a request would see in a store. -/
def view (cfg : Config) (q : Request) (t : Store) : View where
  valid := fun way => t.valid q.bank way (setIndex cfg q)
  entry := fun way => t.entries q.bank way (setIndex cfg q)
  lru := t.lru q.bank (setIndex cfg q)

/-- A way loaded with the request's entry. -/
def load (cfg : Config) (q : Request) (t : Store) : Store :=
  (t.fillFlags q.bank q.way (wayMatch cfg q (view cfg q t) !q.way) (setIndex cfg q)).writeEntry
    q.bank q.way (setIndex cfg q) (refillEntry cfg q)

/-- What a request does to the store and what it is answered. -/
def service (cfg : Config) : Service Store Request Response where
  perform := fun q t =>
    match q.kind with
    | .lookup =>
      if touches cfg q (view cfg q t) then
        t.touch q.bank (selectedWay cfg q (view cfg q t)) (setIndex cfg q)
      else t
    | .refill => if q.pr then t else load cfg q t
    | .invalidateSet => if q.pr then t else t.clearSet (setIndex cfg q)
    | .prepareRefill => if prepareAllowed cfg q then load cfg q t else t
    | .prepareInvalidate => if prepareAllowed cfg q then t.clearSet (setIndex cfg q) else t
    | .reserved | .unlisted _ => t
  answer := fun q t => respond cfg q (view cfg q t)

/-- A request of a kind that prepares. -/
def isPrepare (q : Request) : Bool := q.kind = .prepareInvalidate || q.kind = .prepareRefill

/-- What an edge does with requests. -/
def edge (cfg : Config) (s : State) (i : Input) : Edge Store Request where
  taken := if requestFire s i then some (capture cfg i.req) else none
  answers := s.lookup
  action :=
    if !i.rstN then .reset (step cfg s i).store
    else if holdFire cfg s i then .hold
    else if s.lookup then (if isPrepare s.request then .none else .perform)
    else if commitFire cfg s i then .commit
    else if abortFire cfg i then .abort
    else .none

/-- The service as a keeper of its store. -/
def keeper (cfg : Config) : Keeper (machine cfg) Store Request Response where
  store := State.store
  edge := edge cfg
  shown := fun s => if s.responseValid then some s.response else none
  prepared := State.prepared

/-! ## The invariant -/

/-- The reservation's registers hold the update of the request `q`. -/
structure Reserved (cfg : Config) (s : State) (q : Request) : Prop where
  allowed : prepareAllowed cfg q = true
  set : s.preparedSet = setIndex cfg q
  kind : s.preparedIsRefill = decide (q.kind = .prepareRefill)
  bank : q.kind = .prepareRefill → s.preparedBank = q.bank
  way : q.kind = .prepareRefill → s.preparedWay = q.way
  duplicate : q.kind = .prepareRefill →
    s.preparedDuplicate = wayMatch cfg q (view cfg q s.store) !q.way
  entry : q.kind = .prepareRefill → s.preparedEntry = refillEntry cfg q

/-- The registers against the ledger. -/
structure Inv (cfg : Config) (s : State) (l : Ledger Store Request Response) : Prop where
  settles : (keeper cfg).Settles (service cfg) s l
  /-- A request is only classified with nothing held. -/
  lookup_alone : s.lookup = true → s.prepared = false
  /-- The request being classified is the last one taken, and its set has been read. -/
  looking : s.lookup = true → l.taken = some s.request ∧
    ∀ way, s.entryRd way = s.store.entries s.request.bank way (setIndex cfg s.request)
  held : ∀ q, l.held = some q → Reserved cfg s q

section Proof

variable {cfg : Config} {s : State} {i : Input} {l : Ledger Store Request Response}

/-- A request is only taken with nothing being classified and nothing held. -/
theorem idle_of_requestFire (h : requestFire s i = true) :
    s.lookup = false ∧ s.prepared = false := by
  simp only [requestFire, reqReady, Bool.and_eq_true, Bool.not_eq_true'] at h
  exact ⟨h.2.1.2, h.2.1.1.1.2⟩

theorem setIndex_capture (q : Request) : setIndex cfg (capture cfg q) = setOf cfg q.ea q.po := by
  cases hc : cfg.has602 <;> simp [setIndex, capture, setOf, hc]

theorem writeRam_keep (t : Store) (hc : commitFire cfg s i = false) (hl : s.lookup = false) :
    writeRam cfg s i t = t := by
  simp [writeRam, fillCommit, hc, hl]

/-- Neither a commit nor a classification: the store stays. -/
theorem step_store_keep (hrst : i.rstN = true) (hc : commitFire cfg s i = false)
    (hl : s.lookup = false) : (step cfg s i).store = s.store := by
  simp [step, runState, hrst, writeRam_keep _ hc hl, nextFlags, hc, hl]

/-- A commit performs what is held. -/
theorem step_store_commit {q : Request} (hrst : i.rstN = true) (hc : commitFire cfg s i = true)
    (hl : s.lookup = false) (hres : Reserved cfg s q) :
    (step cfg s i).store = (service cfg).perform q s.store := by
  have hallowed := hres.allowed
  have hkinds : q.kind = .prepareRefill ∨ q.kind = .prepareInvalidate := by
    simp only [prepareAllowed, Bool.and_eq_true, Bool.or_eq_true, decide_eq_true_eq] at hallowed
    rcases hallowed.2 with hk | hk
    · exact Or.inr hk.1
    · exact Or.inl hk.1
  rcases hkinds with hk | hk
  · have hkind : s.preparedIsRefill = true := by simp [hres.kind, hk]
    simp [step, runState, hrst, writeRam, nextFlags, commitFlags, hc, hl, hkind, service, hk,
      hallowed, load, hres.set, hres.bank hk, hres.way hk, hres.duplicate hk, hres.entry hk]
  · have hkind : s.preparedIsRefill = false := by simp [hres.kind, hk]
    have hfill : fillCommit s = false := by simp [fillCommit, hl]
    simp [step, runState, hrst, writeRam, nextFlags, commitFlags, hc, hl, hkind, service, hk,
      hallowed, hres.set, hfill]

/-- Only a lookup that hits moves the LRU bit. -/
theorem touches_of_ne {q : Request} {v : View} (hk : q.kind ≠ .lookup) :
    touches cfg q v = false := by
  unfold touches respond
  split <;> first | exact absurd ‹_› hk | skip
  all_goals (try split) <;> simp [updateResponse, plain]

/-- The classification of a request that is not a prepare performs it. -/
theorem step_store_lookup (hrst : i.rstN = true) (hc : commitFire cfg s i = false)
    (hl : s.lookup = true) (hread : readView cfg s = view cfg s.request s.store) :
    (step cfg s i).store =
      if isPrepare s.request then s.store else (service cfg).perform s.request s.store := by
  by_cases hlookup : s.request.kind = .lookup
  · simp [step, runState, hrst, writeRam, nextFlags, lookupFlags, hc, hl, hread, fillCommit,
      invalidateCommit, isPrepare, service, hlookup]
  have htouch := @touches_of_ne cfg s.request (view cfg s.request s.store) hlookup
  by_cases hrefill : s.request.kind = .refill
  · cases hpr : s.request.pr <;>
      simp [step, runState, hrst, writeRam, nextFlags, lookupFlags, hc, hl, hread, fillCommit,
        invalidateCommit, isPrepare, service, hrefill, htouch, hpr, load]
  by_cases hinv : s.request.kind = .invalidateSet
  · cases hpr : s.request.pr <;>
      simp [step, runState, hrst, writeRam, nextFlags, lookupFlags, hc, hl, hread, fillCommit,
        invalidateCommit, isPrepare, service, hinv, htouch, hpr]
  have hkeep : (step cfg s i).store = s.store := by
    simp [step, runState, hrst, writeRam, nextFlags, lookupFlags, hc, hl, hread, fillCommit,
      invalidateCommit, hrefill, hinv, htouch]
  rw [hkeep]
  cases hp : isPrepare s.request with
  | true => rfl
  | false =>
    simp only [isPrepare, Bool.or_eq_false_iff, decide_eq_false_iff_not] at hp
    simp only [service, Bool.false_eq_true, if_false]
    split <;> simp_all

/-- After an edge in reset the ledger starts again from the store it left. -/
theorem inv_reset (hrst : i.rstN = false) (l : Ledger Store Request Response)
    (hbase : l.base = (step cfg s i).store) (hnone : l.settled = []) (hheld : l.held = none) :
    Inv cfg (step cfg s i) l := by
  have hstep : step cfg s i = resetState cfg s i := by simp [step, hrst]
  refine ⟨⟨?_, ?_, ?_⟩, ?_, ?_, ?_⟩
  · rw [Ledger.store, hnone, hbase]
    rfl
  · intro a ha
    simp [keeper, hstep, resetState] at ha
  · rw [hheld, hstep]
    rfl
  · simp [hstep, resetState]
  · simp [hstep, resetState]
  · intro q hq
    simp [hheld] at hq

variable (h : Inv cfg s l) (hrst : i.rstN = true)
include h

theorem held_none (hp : s.prepared = false) : l.held = none := by
  rw [← Option.not_isSome_iff_eq_none, ← h.settles.held]
  simp [keeper, hp]

/-- While a request is classified, the registered read shows its set. -/
theorem readView_eq (hl : s.lookup = true) : readView cfg s = view cfg s.request s.store := by
  obtain ⟨-, hread⟩ := h.looking hl
  simp only [readView, view]
  congr 1
  funext way
  exact hread way

include hrst

/-- An edge that takes a request reads its set. -/
theorem inv_request (hfire : requestFire s i = true) :
    Inv cfg (step cfg s i) (l.update (service cfg) (edge cfg s i)) := by
  obtain ⟨hl, hp⟩ := idle_of_requestFire hfire
  have hnone := held_none h hp
  have hc : commitFire cfg s i = false := by simp [commitFire, hp]
  have hhold : holdFire cfg s i = false := by simp [holdFire, hl]
  have hact : (edge cfg s i).action = if abortFire cfg i then .abort else .none := by
    simp [edge, hrst, hhold, hl, hc]
  have hkeep := @step_store_keep cfg s i hrst hc hl
  have hstore : (l.update (service cfg) (edge cfg s i)).store (service cfg) = s.store := by
    refine Eq.trans ?_ h.settles.store.symm
    cases hab : abortFire cfg i with
    | true => exact Ledger.store_abort (by rw [hact, hab, if_pos rfl])
    | false => exact Ledger.store_idle (by rw [hact, hab, if_neg Bool.false_ne_true])
  have hheld : (l.update (service cfg) (edge cfg s i)).held = none := by
    cases hab : abortFire cfg i <;> simp [Ledger.update, Ledger.nextHeld, hact, hab, hnone]
  have hprep' : (step cfg s i).prepared = false := by
    simp [step, runState, hrst, hhold, hp]
  refine ⟨⟨?_, ?_, ?_⟩, ?_, ?_, ?_⟩
  · rw [hstore]
    exact hkeep
  · intro a ha
    have ha' : (keeper cfg).shown s = some a := by
      cases hv : s.responseValid <;> cases hr : i.rspReady <;>
        simp_all [keeper, step, runState]
    simpa [Ledger.update, edge, hl] using h.settles.shown a ha'
  · rw [hheld]
    exact hprep'
  · intro _
    exact hprep'
  · intro _
    have hreq : (step cfg s i).request = capture cfg i.req := by
      simp [step, runState, hrst, hfire]
    constructor
    · rw [hreq]
      simp [Ledger.update, Ledger.current, edge, hfire]
    · intro way
      rw [hkeep, hreq, setIndex_capture]
      simp [step, runState, hrst, nextEntryRd, capture]
  · intro q hq
    rw [hheld] at hq
    cases hq

/-- The captured request is classified: performed, held or refused. -/
theorem inv_lookup (hl : s.lookup = true) :
    Inv cfg (step cfg s i) (l.update (service cfg) (edge cfg s i)) := by
  have hp := h.lookup_alone hl
  obtain ⟨htaken, -⟩ := h.looking hl
  have hnone := held_none h hp
  have hread := readView_eq h hl
  have hc : commitFire cfg s i = false := by simp [commitFire, hp]
  have hfire : requestFire s i = false := by simp [requestFire, reqReady, hl]
  have hstep := step_store_lookup hrst hc hl hread
  have hcur : l.current (edge cfg s i) = some s.request := by
    simp [Ledger.current, edge, hfire, htaken]
  have hprepare : holdFire cfg s i = true → isPrepare s.request = true := by
    intro hh
    simp only [holdFire, prepareAllowed, Bool.and_eq_true, Bool.or_eq_true,
      decide_eq_true_eq] at hh
    simp only [isPrepare, Bool.or_eq_true, decide_eq_true_eq]
    exact hh.1.1.2.2.imp And.left And.left
  have hact : (edge cfg s i).action = if holdFire cfg s i then .hold
      else if isPrepare s.request then .none else .perform := by
    simp [edge, hrst, hl]
  have hstore : (step cfg s i).store =
      (l.update (service cfg) (edge cfg s i)).store (service cfg) := by
    rw [hstep]
    cases hh : holdFire cfg s i with
    | true =>
      rw [Ledger.store_hold (by rw [hact, hh, if_pos rfl]), hprepare hh, if_pos rfl]
      exact h.settles.store
    | false =>
      cases hpr : isPrepare s.request with
      | true =>
        rw [Ledger.store_idle (by rw [hact, hh, hpr]; rfl), if_pos rfl]
        exact h.settles.store
      | false =>
        rw [Ledger.store_perform (by rw [hact, hh, hpr]; rfl) hcur, if_neg Bool.false_ne_true,
          ← h.settles.store]
        rfl
  have hheld : (l.update (service cfg) (edge cfg s i)).held =
      if holdFire cfg s i then some s.request else none := by
    cases hh : holdFire cfg s i <;> cases hpr : isPrepare s.request <;>
      simp [Ledger.update, Ledger.nextHeld, hact, hh, hpr, hnone, hcur]
  have hprep' : (step cfg s i).prepared = holdFire cfg s i := by
    cases hh : holdFire cfg s i <;> simp [step, runState, hrst, hh, hc, hp]
  have hl' : (step cfg s i).lookup = false := by simp [step, runState, hrst, hl]
  refine ⟨⟨hstore, ?_, ?_⟩, ?_, ?_, ?_⟩
  · intro a ha
    have ha' : respond cfg s.request (readView cfg s) = a := by
      simpa [keeper, step, runState, hrst, hl] using ha
    have hdue : (l.update (service cfg) (edge cfg s i)).shown =
        some ((service cfg).answer s.request (l.store (service cfg))) := by
      simp [Ledger.update, edge, hl, hfire, Ledger.current, htaken]
    rw [hdue, ← ha', hread, ← h.settles.store]
    rfl
  · rw [hheld]
    exact hprep'.trans (by cases holdFire cfg s i <;> rfl)
  · intro hl''
    simp [hl'] at hl''
  · intro hl''
    simp [hl'] at hl''
  · intro q hq
    rw [hheld] at hq
    cases hh : holdFire cfg s i with
    | false => simp [hh] at hq
    | true =>
      rw [hh, if_pos rfl] at hq
      obtain rfl : s.request = q := Option.some.inj hq
      have hstay : (step cfg s i).store = s.store := by
        rw [hstep, hprepare hh, if_pos rfl]
      have hallowed : prepareAllowed cfg s.request = true := by
        simp only [holdFire, Bool.and_eq_true] at hh
        exact hh.1.1.2
      refine ⟨hallowed, ?_, ?_, ?_, ?_, ?_, ?_⟩
      · simp [step, runState, hrst, hh]
      · simp [step, runState, hrst, hh]
      · intro hk
        simp [step, runState, hrst, hh, hk]
      · intro hk
        simp [step, runState, hrst, hh, hk]
      · intro hk
        rw [hstay, ← hread]
        simp [step, runState, hrst, hh, hk]
      · intro hk
        simp [step, runState, hrst, hh, hk]

/-- An edge that neither takes nor classifies a request: a held update may commit or
be dropped. -/
theorem inv_idle (hfire : requestFire s i = false) (hl : s.lookup = false) :
    Inv cfg (step cfg s i) (l.update (service cfg) (edge cfg s i)) := by
  have hhold : holdFire cfg s i = false := by simp [holdFire, hl]
  have hact : (edge cfg s i).action =
      if commitFire cfg s i then .commit else if abortFire cfg i then .abort else .none := by
    simp [edge, hrst, hhold, hl]
  have hl' : (step cfg s i).lookup = false := by simp [step, runState, hrst, hl, hfire]
  have hheld : (l.update (service cfg) (edge cfg s i)).held =
      if abortFire cfg i || commitFire cfg s i then none else l.held := by
    cases hc : commitFire cfg s i <;> cases hab : abortFire cfg i <;>
      simp [Ledger.update, Ledger.nextHeld, hact, hc, hab]
  have hprep' : (step cfg s i).prepared =
      if abortFire cfg i || commitFire cfg s i then false else s.prepared := by
    cases hc : commitFire cfg s i <;> cases hab : abortFire cfg i <;>
      simp [step, runState, hrst, hhold, hc, hab]
  refine ⟨⟨?_, ?_, ?_⟩, ?_, ?_, ?_⟩
  · cases hc : commitFire cfg s i with
    | true =>
      have hp : s.prepared = true := by
        simp only [commitFire, Bool.and_eq_true] at hc
        exact hc.1.2
      obtain ⟨q, hq⟩ : ∃ q, l.held = some q := by
        rw [← Option.isSome_iff_exists, ← h.settles.held]
        exact hp
      rw [Ledger.store_commit (by rw [hact, hc, if_pos rfl]) hq, ← h.settles.store]
      exact step_store_commit hrst hc hl (h.held q hq)
    | false =>
      have hkeep : (l.update (service cfg) (edge cfg s i)).store (service cfg) =
          l.store (service cfg) := by
        cases hab : abortFire cfg i with
        | true => exact Ledger.store_abort (by rw [hact, hc, hab]; rfl)
        | false => exact Ledger.store_idle (by rw [hact, hc, hab]; rfl)
      rw [hkeep, ← h.settles.store]
      exact step_store_keep hrst hc hl
  · intro a ha
    have ha' : (keeper cfg).shown s = some a := by
      cases hv : s.responseValid <;> cases hr : i.rspReady <;>
        simp_all [keeper, step, runState]
    simpa [Ledger.update, edge, hl] using h.settles.shown a ha'
  · have hold := h.settles.held
    rw [hheld]
    refine hprep'.trans ?_
    cases (abortFire cfg i || commitFire cfg s i) with
    | true => rfl
    | false => exact hold
  · intro hl''
    simp [hl'] at hl''
  · intro hl''
    simp [hl'] at hl''
  · intro q hq
    have hends : (abortFire cfg i || commitFire cfg s i) = false := by
      rw [hheld] at hq
      cases hx : (abortFire cfg i || commitFire cfg s i) with
      | false => rfl
      | true => simp [hx] at hq
    have hc : commitFire cfg s i = false := (Bool.or_eq_false_iff.1 hends).2
    rw [hheld, hends, if_neg Bool.false_ne_true] at hq
    have hres := h.held q hq
    have hkeep := @step_store_keep cfg s i hrst hc hl
    refine ⟨hres.allowed, ?_, ?_, ?_, ?_, ?_, ?_⟩
    · simpa [step, runState, hrst, hhold] using hres.set
    · simpa [step, runState, hrst, hhold] using hres.kind
    · simpa [step, runState, hrst, hhold] using hres.bank
    · simpa [step, runState, hrst, hhold] using hres.way
    · rw [hkeep]
      simpa [step, runState, hrst, hhold] using hres.duplicate
    · simpa [step, runState, hrst, hhold] using hres.entry

end Proof

/-- The invariant over one edge. -/
theorem inv_step {cfg : Config} {s : State} {l : Ledger Store Request Response} (i : Input)
    (h : Inv cfg s l) : Inv cfg (step cfg s i) (l.update (service cfg) (edge cfg s i)) := by
  cases hrst : i.rstN with
  | false =>
    apply inv_reset hrst <;>
      simp [Ledger.update, Ledger.nextSettled, Ledger.nextHeld, edge, hrst]
  | true =>
    by_cases hl : s.lookup = true
    · exact inv_lookup h hrst hl
    by_cases hfire : requestFire s i = true
    · exact inv_request h hrst hfire
    · exact inv_idle h hrst (by simpa using hfire) (by simpa using hl)

/-- The invariant holds all along a run. -/
theorem inv_run {cfg : Config} (r : Run (machine cfg)) (n : ℕ) :
    Inv cfg (r.state n) ((keeper cfg).ledger (service cfg) r n) := by
  revert n
  apply Keeper.ledger_invariant
  · rintro _ ⟨s₀, i, hrst, rfl⟩
    exact inv_reset hrst _ rfl rfl rfl
  · intro s l i h
    exact inv_step i h

/-- **The TLB service is all or nothing.** -/
theorem keeper_allOrNothing (cfg : Config) : (keeper cfg).AllOrNothing (service cfg) := by
  apply Keeper.allOrNothing
  · intro r n
    exact (inv_run r n).settles
  · intro r n hprep
    have hprep' : (r.state n).prepared = true := hprep
    have hl : (r.state n).lookup = false := by
      rw [← Bool.not_eq_true]
      intro hl
      simp [(inv_run r n).lookup_alone hl] at hprep'
    simp only [keeper, edge, holdFire, hl, Bool.false_and, Bool.false_eq_true, if_false]
    split_ifs <;> simp

end Tlb
end SloPPC603
