import SloPPC603.Clocked.Exchange
import SloPPC603.Router.Outcome

/-!
# The router's traffic

What passes through the router on its two lanes, and what one request may make of the
physical port: an allowed request is sent there with the address and attributes of its
outcome and its response carries what the port answered; a denied one is not sent, and
its response is its fault.

* `FetchTaken`, `DataTaken` — a request with the committed state it was accepted in.
* `FetchServed`, `DataServed` — a request, what it sent, what it was answered, and its
  response.
* `Log`, `log` — the traffic of a run.
-/

namespace SloPPC603
namespace Router

open Clocked

/-! ## Requests -/

/-- The access of a fetch. -/
def fetchAccess (addr : BitVec 32) : Access :=
  { instruction := true, write := false, ea := addr }

/-- The access of a data request. -/
def DataReq.access (q : DataReq) : Access :=
  { instruction := false, write := q.write, ea := q.addr, kind := q.kind, fp := q.fp }

/-- A fetch accepted, and the committed state it was accepted in. -/
structure FetchTaken where
  addr : BitVec 32
  arch : Arch

/-- A data request accepted, and the committed state it was accepted in. -/
structure DataTaken where
  req : DataReq
  arch : Arch

/-- The response of a denied data access. -/
def Outcome.dataResponse : Outcome → Option DataResponse
  | .noop => some ⟨0, false, .ok, default⟩
  | .dataFault f m => some ⟨0, false, f, m⟩
  | .untyped => some ⟨0, true, .ok, default⟩
  | _ => none

/-- The response of a denied fetch. -/
def Outcome.fetchResponse : Outcome → Option FetchResponse
  | .fetchFault f m => some ⟨0, 0, f, m, .denied⟩
  | _ => none

section Served

variable (cfg : Config)

/-- The outcome of a fetch. -/
def FetchTaken.outcome (q : FetchTaken) : Outcome := Router.outcome cfg q.arch (fetchAccess q.addr)

/-- The outcome of a data request. -/
def DataTaken.outcome (q : DataTaken) : Outcome := Router.outcome cfg q.arch q.req.access

/-- Fetch errors are fetched once more. -/
def Config.refetches : Bool := cfg.fetchTeaRefetch && cfg.enableMachineCheck

/-- The response made of a physical fetch answer, the second one if `again`. -/
def fetchReply (esa : EsaEnable) (again : Bool) (b : FetchAnswer) : FetchResponse :=
  let blank := cfg.enableMachineCheck && (b.error || again)
  { insn := if blank then 0 else b.insn
    hints := if blank then 0 else b.hints
    fault := if blank then (if again && b.error then .teaRepeat else .machineCheck) else .ok
    pageMiss := default
    esa := if cfg.has602 then esa else .denied }

/-- The response made of a physical data answer. -/
def dataReply (ds : Bool) (b : DataAnswer) : DataResponse where
  rdata := if cfg.enableMachineCheck && b.error then 0 else b.rdata
  error := !cfg.enableMachineCheck && b.error
  fault :=
    if cfg.enableMachineCheck && b.error then .machineCheck
    else if ds && b.dsError && !b.error then .dsiDirectStoreError
    else .ok
  pageMiss := default

/-- A fetch goes to the physical port as its outcome says. -/
def FetchSends (q : FetchTaken) (a : FetchAccess) (esa : EsaEnable) : Prop :=
  q.outcome cfg = .allow a.addr a.wimg esa

/-- A data request does, with its own direction and data. -/
structure DataSends (q : DataTaken) (a : DataAccess) : Prop where
  write : a.write = q.req.write
  wdata : a.wdata = q.req.wdata
  wstrb : a.wstrb = q.req.wstrb
  outcome : (∃ esa, q.outcome cfg = .allow a.addr a.wimg esa ∧ a.ds = false) ∨
    (q.outcome cfg = .directStore a.addr a.dsTag ∧ a.wimg = dsWimg ∧ a.ds = true)

/-- What becomes of a fetch. -/
inductive FetchServed : FetchTaken → List FetchAccess → List FetchAnswer → FetchResponse → Prop
  | sent {q : FetchTaken} {a : FetchAccess} {b : FetchAnswer} {esa : EsaEnable}
      (h : FetchSends cfg q a esa) (hb : cfg.refetches = true → b.error = false)
      (hm : cfg.enableMachineCheck = false → b.error = false) :
      FetchServed q [a] [b] (fetchReply cfg esa false b)
  | again {q : FetchTaken} {a : FetchAccess} {b b' : FetchAnswer} {esa : EsaEnable}
      (h : FetchSends cfg q a esa) (hr : cfg.refetches = true) (hb : b.error = true) :
      FetchServed q [a, a] [b, b'] (fetchReply cfg esa true b')
  | denied {q : FetchTaken} {p : FetchResponse} (h : (q.outcome cfg).fetchResponse = some p) :
      FetchServed q [] [] p

/-- What becomes of a data request. -/
inductive DataServed : DataTaken → List DataAccess → List DataAnswer → DataResponse → Prop
  | sent {q : DataTaken} {a : DataAccess} {b : DataAnswer} (h : DataSends cfg q a) :
      DataServed q [a] [b] (dataReply cfg a.ds b)
  | denied {q : DataTaken} {p : DataResponse} (h : (q.outcome cfg).dataResponse = some p) :
      DataServed q [] [] p

end Served

/-! ## The log -/

/-- The traffic of both lanes. -/
structure Log where
  fetch : Traffic FetchTaken FetchAccess FetchAnswer FetchResponse
  data : Traffic DataTaken DataAccess DataAnswer DataResponse

/-- Nothing has passed. -/
def Log.empty : Log := ⟨Traffic.empty, Traffic.empty⟩

section Edge

variable (cfg : Config) (s : State) (i : Input)

/-- The fetch accepted on an edge. -/
def fetchTaken : Option FetchTaken :=
  if iAccept cfg s i then some ⟨i.imemReqAddr, s.arch⟩ else none

/-- The physical fetch accepted on an edge. -/
def fetchSent : Option FetchAccess :=
  if pimemReqValid cfg s i && i.pimemReqReady then some (pimemReq cfg s i) else none

/-- The physical fetch answer taken on an edge. -/
def fetchAnswered : Option FetchAnswer :=
  if i.pimemRspValid && pimemRspReady cfg s i then some i.pimemRsp else none

/-- The fetch response delivered on an edge. -/
def fetchGiven : Option FetchResponse :=
  if imemRspValid cfg s i && i.imemRspReady then some (imemRsp cfg s i) else none

/-- The data request accepted on an edge. -/
def dataTaken : Option DataTaken := if dAccept cfg s i then some ⟨i.dmemReq, s.arch⟩ else none

/-- The physical data access accepted on an edge. -/
def dataSent : Option DataAccess :=
  if pdmemReqValid cfg s i && i.pdmemReqReady then some (pdmemReq cfg s i) else none

/-- The physical data answer taken on an edge. -/
def dataAnswered : Option DataAnswer :=
  if i.pdmemRspValid && pdmemRspReady s i then some i.pdmemRsp else none

/-- The data response delivered on an edge. -/
def dataGiven : Option DataResponse :=
  if dmemRspValid s i && i.dmemRspReady then some (dmemRsp cfg s i) else none

/-- The log after an edge; a reset starts it afresh. -/
def Log.update (l : Log) : Log :=
  if i.rstN then
    { fetch := l.fetch.add (fetchTaken cfg s i) (fetchSent cfg s i) (fetchAnswered cfg s i)
        (fetchGiven cfg s i)
      data := l.data.add (dataTaken cfg s i) (dataSent cfg s i) (dataAnswered s i)
        (dataGiven cfg s i) }
  else Log.empty

end Edge

/-- The traffic of a run since its last reset. -/
def log {cfg : Config} (r : Run (machine cfg)) (n : ℕ) : Log :=
  r.history Log.empty (fun l s i => l.update cfg s i) n

end Router
end SloPPC603
