import SloPPC603.Router.Progress

/-!
# Responses pair with their requests

The router's two lanes as its users see them: every accepted request has one response, in
order, made of its own physical accesses or of its own fault.

* `requests_pair` — the result.
* `oneFetch` — a run with one fetch, answered or in error.
-/

namespace SloPPC603
namespace Router

open Clocked

/-! ## The result -/

/-- A router that has stopped has done so on its open fetch: its denial has no type, or the
port answered with an error and there is no machine check to report it as. -/
def StoppedOn (cfg : Config) (qs : List FetchTaken) (bs : List FetchAnswer) : Prop :=
  ∃ q, qs = [q] ∧ (q.outcome cfg = .fatal ∨
    (cfg.enableMachineCheck = false ∧ ∃ b, bs = [b] ∧ b.error = true))

theorem stoppedOn {cfg : Config} {s : State} {qs : List FetchTaken} {as : List FetchAccess}
    {bs : List FetchAnswer} (hc : Ctrl cfg s) (h : Seq cfg s) (hstop : Stops s)
    (hf : s.ifetchFatal = true) (ho : FetchOpen cfg s qs as bs) : StoppedOn cfg qs bs := by
  rcases hstop.1 hf with hr | hs
  · have hq := hc.fault_i (Or.inr hr)
    have hs := hc.slow_i.2 ⟨by simp [hr], hq⟩
    simp only [FetchOpen, hs] at ho
    obtain ⟨-, -, -, q, rfl, -, hout⟩ := ho
    have hstuck := h.stuck hr
    rw [slowAccess, hq, hout] at hstuck
    exact ⟨q, rfl, Or.inl hstuck⟩
  · simp only [FetchOpen, hs] at ho
    obtain ⟨q, b, rfl, -, -, rfl, hb, hm⟩ := ho
    exact ⟨q, rfl, Or.inr ⟨hm, b, rfl, hb⟩⟩

/-- **Requests and responses pair.**  In every run, each lane's responses are those of its
first accepted requests, in order, each made of the request's own physical accesses and
their answers or of its own fault; what has been sent beyond them is of open requests in
order, so a denied request is never sent; nothing is accepted, offered or translated while
an update service owns the slot; and among surroundings that serve the router every
accepted request is responded to, unless the router stops on a fetch it cannot report. -/
theorem requests_pair (cfg : Config) (r : Run (machine cfg)) :
    (∀ n, Projected r n →
      (∃ sent unsent as, Paired (DataServed cfg) (log r n).data (sent ++ unsent) as [] ∧
        (sent ++ unsent).length ≤ 2 ∧ List.Forall₂ (DataSends cfg) sent as) ∧
      ∃ qs as bs, Paired (FetchServed cfg) (log r n).fetch qs as bs ∧ qs.length ≤ 1 ∧
        (∀ a ∈ as, ∃ q ∈ qs, ∃ esa, FetchSends cfg q a esa) ∧
        (Stopped r n → StoppedOn cfg qs bs)) ∧
    (∀ n, (r.state n).owner ≠ .none →
      imemReqReady cfg (r.state n) (r.input n) = false ∧
        dmemReqReady cfg (r.state n) (r.input n) = false ∧
        pimemReqValid cfg (r.state n) (r.input n) = false ∧
        pdmemReqValid cfg (r.state n) (r.input n) = false ∧ (r.state n).route = .idle) ∧
    (Serves r → ∀ b n k, k < taken r b n → ∃ m, n ≤ m ∧ (k < given r b m ∨ Stopped r m)) := by
  refine ⟨?_, ?_, ?_⟩
  · intro n hproj
    have hpairs := pairs_run r hproj
    obtain ⟨qs, as, bs, hp, ho⟩ := hpairs.fetch
    obtain ⟨hlen, hsends⟩ := fetch_inOrder ho
    exact ⟨data_inOrder hpairs.data, qs, as, bs, hp, hlen, hsends, fun hstop =>
      stoppedOn (ctrl_run r n) (seq_run r n) (stops_run r n) hstop ho⟩
  · intro n ho
    exact owned_quiet (ctrl_run r n) ho
  · intro hs b n k hk
    exact every_request hs b k n hk

/-! ### One fetch, answered or in error -/

/-- Some registers before the first reset. -/
def powerUp : State where
  route := .idle
  iState := .idle
  dState := .idle
  iEa := 0
  dEa := 0
  iPa := 0
  dPa := 0
  dWdata := 0
  dWstrb := 0
  iWimg := 0
  dWimg := 0
  dWrite := false
  dKind := .normal
  dFp := false
  dDs := false
  dDsTag := 0
  dSecond := false
  dsNoop := false
  owner := .none
  tlbFillEa := 0
  tlbFillBank := false
  running := false
  contextIr := false
  contextDr := false
  contextPr := false
  mmu602 := {}
  iEsa := .denied
  fetchFault := .ok
  dataFault := .ok
  lastGrantData := true
  request := ⟨false, false, 0, false, false, false, false⟩
  pageSr := 0
  pageMissResult := default
  fault := false
  pimemError := false
  ifetchFatal := false
  iRefetch := false
  bat := Bat.resetState
  segment :=
    { sr := fun _ => 0, srWritten := fun _ => false, rspValid := false
      rsp := ⟨.read, 0, 0, 0, false, false⟩, prepared := false, preparedIndex := 0
      preparedData := 0, commitAck := false }
  tlb :=
    { store := ⟨fun _ _ _ => false, fun _ _ => false, fun _ _ _ => ⟨0, 0, 0, false, 0, 0, 0⟩⟩
      entryRd := fun _ => ⟨0, 0, 0, false, 0, 0, 0⟩, request := { kind := .lookup }
      requestAbort := false, lookup := false, responseValid := false
      response := { kind := .lookup, bank := false, ea := 0 }, prepared := false
      preparedIsRefill := false, preparedBank := false, preparedWay := false
      preparedDuplicate := false, preparedSet := 0
      preparedEntry := ⟨0, 0, 0, false, 0, 0, 0⟩, commitAck := false }
  iUtlb := ⟨fun _ => false, fun _ => default, 0⟩
  dUtlb := ⟨fun _ => false, fun _ => default, 0⟩

/-- Both lanes pipelined, and no machine checks. -/
def pipelined : Config := { enableDataPipeline := true, enableFetchPipeline := true }

/-- Everything is taken, and nothing requested or answered. -/
def quietInput : Input :=
  { pimemReqReady := true, pdmemReqReady := true, imemRspReady := true, dmemRspReady := true }

/-- A start, a fetch, and its answer. -/
def oneFetchInput (error : Bool) : ℕ → Input
  | 0 => { quietInput with start := { valid := true } }
  | 1 => { quietInput with imemReqValid := true }
  | 5 => { quietInput with pimemRspValid := true, pimemRsp := { error := error } }
  | _ => quietInput

/-- One fetch in real mode. -/
def oneFetch (error : Bool) : Run (machine pipelined) where
  start := step pipelined powerUp { rstN := false }
  initial := ⟨powerUp, { rstN := false }, rfl, rfl⟩
  input := oneFetchInput error

/-- Nothing is on its way. -/
structure Settled (s : State) : Prop where
  instruction : s.iState = .idle ∨ s.iState = .fatal
  data : s.dState = .idle
  route : s.route = .idle

theorem settled_step {cfg : Config} {s : State} {l : Log} (h : Settled s) :
    Settled (step cfg s quietInput) ∧ l.update cfg s quietInput = l := by
  have hrst : quietInput.rstN = true := rfl
  have hi : iAccept cfg s quietInput = false := by simp [iAccept, quietInput]
  have hd : dAccept cfg s quietInput = false := by simp [dAccept, quietInput]
  have hp := not_dPipeAccept hd
  have hch : choose cfg s quietInput = false := by
    rcases h.instruction with hx | hx <;>
      simp [choose, chooseInstruction, chooseData, wantInstruction, wantData, hi, hd, hx, h.data]
  rw [step_run hrst]
  refine ⟨⟨?_, ?_, ?_⟩, ?_⟩
  · rcases h.instruction with hx | hx
    · exact Or.inl (by simp [runState, nextIState, hx, hi])
    · exact Or.inr (by simp [runState, nextIState, hx])
  · simp [runState, nextDState, h.data, hp, hd]
  · simp [runState, nextRoute, h.route, hch]
  · have htry : dPipeTry cfg s quietInput = false := by simp [dPipeTry, quietInput]
    have hfetch : quietInput.pimemRspValid = false := rfl
    have hdata : quietInput.pdmemRspValid = false := rfl
    rcases h.instruction with hx | hx <;>
      simp [Log.update, hrst, fetchTaken, fetchSent, fetchAnswered, fetchGiven, dataTaken,
        dataSent, dataAnswered, dataGiven, hi, hd, pimemReqValid, pdmemReqValid, iPipeTry, htry,
        imemRspValid, dmemRspValid, h.data, h.route, hx, hfetch, hdata]

/-- After the answer everything is settled. -/
theorem oneFetch_settled (error : Bool) {n : ℕ} (hn : 6 ≤ n) :
    Settled ((oneFetch error).state n) ∧ log (oneFetch error) n = log (oneFetch error) 6 := by
  induction n, hn using Nat.le_induction with
  | base => exact ⟨by cases error <;> exact ⟨by decide, by decide, by decide⟩, rfl⟩
  | succ n hn ih =>
    obtain ⟨k, rfl⟩ := Nat.exists_eq_add_of_le' hn
    obtain ⟨hset, hlog⟩ := @settled_step pipelined _ (log (oneFetch error) (k + 6)) ih.1
    exact ⟨hset, hlog.trans ih.2⟩

/-- The surroundings of one fetch serve the router. -/
theorem oneFetch_serves (error : Bool) : Serves (oneFetch error) := by
  have hsettled := fun n => @oneFetch_settled error (n + 6) (Nat.le_add_left 6 n)
  have hready : ∀ n, (oneFetchInput error n).rstN = true ∧
      (oneFetchInput error n).pimemReqReady = true ∧
      (oneFetchInput error n).pdmemReqReady = true ∧
      (oneFetchInput error n).imemRspReady = true ∧
      (oneFetchInput error n).dmemRspReady = true ∧
      (oneFetchInput error n).pdmemRspValid = false := by
    intro n
    unfold oneFetchInput
    split <;> exact ⟨rfl, rfl, rfl, rfl, rfl, rfl⟩
  -- the only physical answer
  have hvalid : ∀ n, ((oneFetch error).input n).pimemRspValid = true → n = 5 := by
    intro n hn
    have hn' : (oneFetchInput error n).pimemRspValid = true := hn
    unfold oneFetchInput at hn'
    split at hn' <;> first | rfl | cases hn'
  have howed : ¬ (log (oneFetch error) 6).fetch.Owed ∧ ¬ (log (oneFetch error) 6).data.Owed := by
    cases error <;> exact ⟨by unfold Traffic.Owed; decide, by unfold Traffic.Owed; decide⟩
  constructor
  · exact fun n => (hready n).1
  · intro n hen
    cases hen
  · exact fun n => ⟨n, le_rfl, fun _ => (hready n).2.1⟩
  · refine ⟨?_, ?_, ?_⟩
    · intro n hn
      obtain rfl := hvalid n hn
      cases error <;> (unfold Traffic.Owed; decide)
    · intro n
      refine ⟨n + 6, by omega, fun ho => ?_⟩
      rw [(hsettled n).2] at ho
      exact absurd ho howed.1
    · intro n hn hno
      obtain rfl := hvalid n hn
      cases error <;> cases hno
  · exact fun n => ⟨n, le_rfl, fun _ => (hready n).2.2.2.1⟩
  · exact fun n => ⟨n, le_rfl, fun _ => (hready n).2.2.1⟩
  · refine ⟨?_, ?_, ?_⟩
    · intro n hn
      exact nomatch ((hready n).2.2.2.2.2.symm.trans hn)
    · intro n
      refine ⟨n + 6, by omega, fun ho => ?_⟩
      rw [(hsettled n).2] at ho
      exact absurd ho howed.2
    · intro n hn
      exact nomatch ((hready n).2.2.2.2.2.symm.trans hn)
  · exact fun n => ⟨n, le_rfl, fun _ => (hready n).2.2.2.2.1⟩

/-- Without machine checks a physical fetch error stops the router: the fetch is accepted
and never responded to. -/
theorem fetch_error_unanswered : Serves (oneFetch true) ∧ 0 < taken (oneFetch true) true 2 ∧
    ∀ m, given (oneFetch true) true m = 0 := by
  refine ⟨oneFetch_serves true, by decide, ?_⟩
  intro m
  by_cases hm : m < 6
  · have hfirst : ∀ m < 6, given (oneFetch true) true m = 0 := by decide
    exact hfirst m hm
  · have hlog := (@oneFetch_settled true m (Nat.le_of_not_lt hm)).2
    unfold given
    rw [hlog]
    decide

theorem requests_pair_oneFetch : ∃ m, 2 ≤ m ∧
    (0 < given (oneFetch false) true m ∨ Stopped (oneFetch false) m) :=
  (requests_pair pipelined (oneFetch false)).2.2 (oneFetch_serves false) true 2 0 (by decide)

end Router
end SloPPC603
