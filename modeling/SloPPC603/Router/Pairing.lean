import SloPPC603.Router.FetchLane

/-!
# Requests and responses

The traffic of both lanes belongs together in every run: the responses are those of the
first accepted requests, in order, each made of its own physical access or of its own
fault, and what has been sent beyond them is of requests still open.

* `Pairs`, `pairs_run` — the traffic of both lanes, along a run.
* `data_inOrder`, `fetch_inOrder` — what is open: at most two data requests, one fetch.
* `owned_quiet` — nothing is accepted, offered or translated while the slot is owned.
-/

namespace SloPPC603
namespace Router

open Clocked

/-! ## Along a run -/

/-- The traffic of both lanes belongs together. -/
structure Pairs (cfg : Config) (s : State) (l : Log) : Prop where
  fetch : FetchPaired cfg s l.fetch
  data : DataPaired cfg s l.data

section Run

variable {cfg : Config} {s : State} {i : Input} {l : Log}

theorem pairs_reset (hrst : i.rstN = false) : Pairs cfg (step cfg s i) Log.empty := by
  rw [step_reset hrst]
  exact ⟨⟨[], [], [], paired_empty, rfl, rfl, rfl, rfl⟩, [], [], paired_empty, rfl, rfl⟩

/-- **Requests and responses belong together**, over an edge. -/
theorem pairs_step (hc : Ctrl cfg s) (h : Seq cfg s) (hr : Repeats cfg s)
    (hproj : ProjectionAgrees cfg i) (hp : Pairs cfg s l) :
    Pairs cfg (step cfg s i) (l.update cfg s i) := by
  cases hrst : i.rstN with
  | false =>
    rw [Log.update, if_neg (by simp [hrst])]
    exact pairs_reset hrst
  | true =>
    rw [Log.update, if_pos hrst, step_run hrst]
    exact ⟨fetch_step hc h hr hrst hp.fetch, data_step hc h hr hrst hproj hp.data⟩

/-- The projected pages are those of the requests, on the edges before the `n`th. -/
def Projected (r : Run (machine cfg)) (n : ℕ) : Prop :=
  r.Obeys (fun _ i => ProjectionAgrees cfg i) n

/-- Requests and responses belong together, along a run. -/
theorem pairs_run (r : Run (machine cfg)) {n : ℕ} (hproj : Projected r n) :
    Pairs cfg (r.state n) (log r n) := by
  induction n with
  | zero =>
    obtain ⟨s₀, i, hrst, heq⟩ := r.initial
    rw [Run.state_zero, heq]
    exact pairs_reset hrst
  | succ n ih =>
    exact pairs_step (ctrl_run r n) (seq_run r n) (repeats_run r n) (hproj n (Nat.lt_succ_self n))
      (ih (hproj.mono (Nat.le_succ n)))

end Run

/-! ## What is open -/

section Open

variable {cfg : Config} {s : State} {i : Input}

/-- At most two data requests are open; those sent to the port are the first of them. -/
theorem data_inOrder {t : Traffic DataTaken DataAccess DataAnswer DataResponse}
    (h : DataPaired cfg s t) : ∃ sent unsent as,
      Paired (DataServed cfg) t (sent ++ unsent) as [] ∧ (sent ++ unsent).length ≤ 2 ∧
        List.Forall₂ (DataSends cfg) sent as := by
  obtain ⟨qs, as, hp, ho⟩ := h
  cases hs : s.dState <;> simp only [DataOpen, hs] at ho
  case idle =>
    obtain ⟨rfl, rfl⟩ := ho
    exact ⟨[], [], [], hp, by simp, List.Forall₂.nil⟩
  case wait | slow =>
    obtain ⟨rfl, q, rfl, -⟩ := ho
    exact ⟨[], [q], [], hp, by simp, List.Forall₂.nil⟩
  case offer =>
    obtain ⟨rfl, q, rfl, -⟩ := ho
    exact ⟨[], [q], [], hp, by simp, List.Forall₂.nil⟩
  case response =>
    split_ifs at ho
    · obtain ⟨q, q', a, a', rfl, rfl, hsend, hsend', -⟩ := ho
      exact ⟨[q, q'], [], [a, a'], hp, by simp,
        List.Forall₂.cons hsend (List.Forall₂.cons hsend' List.Forall₂.nil)⟩
    · obtain ⟨q, a, rfl, rfl, hsend, -⟩ := ho
      exact ⟨[q], [], [a], hp, by simp, List.Forall₂.cons hsend List.Forall₂.nil⟩

/-- At most one fetch is open, and what has been sent beyond the responses is its. -/
theorem fetch_inOrder {qs : List FetchTaken} {as : List FetchAccess} {bs : List FetchAnswer}
    (ho : FetchOpen cfg s qs as bs) :
    qs.length ≤ 1 ∧ ∀ a ∈ as, ∃ q ∈ qs, ∃ esa, FetchSends cfg q a esa := by
  have hbefore : ∀ {before}, FetchBefore cfg s before bs →
      ∀ a ∈ before, a = heldFetchAccess s := by
    intro before hb a ha
    unfold FetchBefore at hb
    split_ifs at hb
    · rw [hb.1] at ha
      simpa using ha
    · rw [hb.1] at ha
      simp at ha
  cases hs : s.iState <;> simp only [FetchOpen, hs] at ho
  case idle =>
    obtain ⟨rfl, rfl, rfl, -⟩ := ho
    exact ⟨by simp, by simp⟩
  case wait | slow =>
    obtain ⟨rfl, rfl, -, q, rfl, -⟩ := ho
    exact ⟨by simp, by simp⟩
  case offer =>
    obtain ⟨q, rfl, hsend, hb⟩ := ho
    refine ⟨by simp, ?_⟩
    intro a ha
    rw [hbefore hb a ha]
    exact ⟨q, by simp, _, hsend⟩
  case response =>
    obtain ⟨q, before, rfl, hsend, rfl, hb⟩ := ho
    refine ⟨by simp, ?_⟩
    intro a ha
    have hheld : a = heldFetchAccess s := by
      rcases List.mem_append.1 ha with ha | ha
      · exact hbefore hb a ha
      · simpa using ha
    rw [hheld]
    exact ⟨q, by simp, _, hsend⟩
  case fatal =>
    obtain ⟨q, b, rfl, hsend, rfl, rfl, -⟩ := ho
    refine ⟨by simp, ?_⟩
    intro a ha
    rw [List.mem_singleton.1 ha]
    exact ⟨q, by simp, _, hsend⟩

/-- **Nothing is accepted, offered or translated while an update service owns the slot.** -/
theorem owned_quiet (hc : Ctrl cfg s) (ho : s.owner ≠ .none) :
    imemReqReady cfg s i = false ∧ dmemReqReady cfg s i = false ∧
      pimemReqValid cfg s i = false ∧ pdmemReqValid cfg s i = false ∧ s.route = .idle := by
  obtain ⟨-, hroute, hok⟩ := hc.requests_owned (i := i) ho
  obtain ⟨hi, hd⟩ := lanesIdle_iff.1 (hc.owned ho)
  have htry : dPipeTry cfg s i = false := by simp [dPipeTry, hok]
  have hready : imemReqReady cfg s i = false := by simp [imemReqReady, hok]
  refine ⟨hready, ?_, ?_, ?_, hroute⟩
  · simp [dmemReqReady, htry, hok]
  · simp [pimemReqValid, hi, iPipeTry, iAccept, hready]
  · simp [pdmemReqValid, hd, htry]

end Open

end Router
end SloPPC603
