import SloPPC603.Router.Progress
import SloPPC603.Router.Settled
import SloPPC603.Router.Updates

/-!
# The history of a lane, replayed

A lane's history is the requests it accepts and the updates of the committed state, in
order.  Replayed, each request translated as it is accepted, it gives what becomes of the
lane's requests, and the committed state but for the request still to be looked up.  The
micro-TLBs have no part in it.

* `Event`, `events` — the history of a lane.
* `replay`, `translationsFrom` — the replay.
* `Replays`, `replays_run` — the lane follows it, in every run.
-/

namespace SloPPC603
namespace Router

open Clocked

/-! ## Histories -/

/-- What a history records. -/
inductive Event
  | request (x : Access)
  | update (u : Update)
  deriving DecidableEq, Repr

/-- The committed state an event leaves. -/
def Event.apply (cfg : Config) (a : Arch) : Event → Arch
  | .request x => touchedBy cfg a x
  | .update u => u.apply cfg a

/-- The committed state after a reset, but for what the entries hold. -/
def Arch.initial : Arch where
  banks := Bat.Banks.zero
  sr := fun _ => 0
  tlb := ⟨fun _ _ _ => false, fun _ _ => false, fun _ _ _ => ⟨0, 0, 0, false, 0, 0, 0⟩⟩
  ir := false
  dr := false
  pr := false
  mmu602 := {}

/-- The committed state after a history. -/
def replay (cfg : Config) (es : List Event) : Arch := es.foldl (Event.apply cfg) Arch.initial

/-- What becomes of the requests of a history. -/
def translationsFrom (cfg : Config) (a : Arch) : List Event → List (Access × Outcome)
  | [] => []
  | .request x :: es => (x, outcome cfg a x) :: translationsFrom cfg (touchedBy cfg a x) es
  | .update u :: es => translationsFrom cfg (u.apply cfg a) es

section Histories

variable {cfg : Config} {a a' : Arch} {es es' : List Event} {us : List Update} {x : Access}
  {b : Bool}

theorem translationsFrom_append : translationsFrom cfg a (es ++ es') =
    translationsFrom cfg a es ++ translationsFrom cfg (es.foldl (Event.apply cfg) a) es' := by
  induction es generalizing a with
  | nil => rfl
  | cons e es ih =>
    cases e with
    | request x =>
      rw [List.cons_append, translationsFrom, translationsFrom, ih]
      rfl
    | update u =>
      rw [List.cons_append, translationsFrom, translationsFrom, ih]
      rfl

theorem translationsFrom_updates : translationsFrom cfg a (us.map Event.update) = [] := by
  induction us generalizing a with
  | nil => rfl
  | cons u us ih => exact ih

theorem replay_updates : replay cfg (es ++ us.map Event.update) =
    us.foldl (Update.apply cfg) (replay cfg es) := by
  rw [replay, List.foldl_append, List.foldl_map]
  rfl

theorem replay_request : replay cfg (es ++ [.request x]) = touchedBy cfg (replay cfg es) x := by
  rw [replay, List.foldl_append]
  rfl

theorem foldl_agrees (h : Agrees b a a') :
    Agrees b (us.foldl (Update.apply cfg) a) (us.foldl (Update.apply cfg) a') := by
  induction us generalizing a a' with
  | nil => exact h
  | cons u us ih => exact ih (Update.apply_agrees u h)

end Histories

/-! ## The history of a lane -/

/-- The access a lane accepts on an edge. -/
def laneTaken (cfg : Config) (s : State) (i : Input) (instruction : Bool) : Option Access :=
  if instruction then (fetchTaken cfg s i).map fun q => fetchAccess q.addr
  else (dataTaken cfg s i).map fun q => q.req.access

/-- A lane's micro-TLB hits. -/
def laneHit (cfg : Config) (s : State) (i : Input) (instruction : Bool) : Bool :=
  if instruction then iHit cfg s i else dHit cfg s i

/-- What an edge adds to the history of a lane. -/
def edgeEvents (cfg : Config) (s : State) (i : Input) (instruction : Bool) : List Event :=
  (updates cfg s i).map Event.update ++
    ((laneTaken cfg s i instruction).map Event.request).toList

/-- The history of a lane in a run since its last reset. -/
def events {cfg : Config} (r : Run (machine cfg)) (instruction : Bool) (n : ℕ) : List Event :=
  r.history [] (fun es s i => if i.rstN then es ++ edgeEvents cfg s i instruction else []) n

/-- What has become of the requests of a lane. -/
def Log.translations (cfg : Config) (l : Log) (instruction : Bool) : List (Access × Outcome) :=
  if instruction then l.fetch.requests.map fun q => (fetchAccess q.addr, q.outcome cfg)
  else l.data.requests.map fun q => (q.req.access, q.outcome cfg)

/-- The sequence has not come to its lookup. -/
def RouteState.early : RouteState → Bool
  | .translateOffer | .translateResponse | .segmentOffer | .segmentResponse | .pageOffer => true
  | _ => false

/-- The request of a lane is still to be looked up. -/
def untranslated (s : State) (instruction : Bool) : Bool :=
  laneState s instruction = .wait ||
    (laneState s instruction = .slow &&
      (s.route.early || (s.route = .pageResponse && !s.tlb.responseValid)))

/-- The committed state is that of a lane's history, less the request still to be looked
up. -/
def Follows (cfg : Config) (s : State) (instruction : Bool) (es : List Event) : Prop :=
  if untranslated s instruction then
    ∃ before, es = before ++ [.request (laneAccess s instruction)] ∧
      Agrees (!instruction) (replay cfg before) s.arch
  else Agrees (!instruction) (replay cfg es) s.arch

/-- A lane follows the replay of its history. -/
structure Replays (cfg : Config) (s : State) (l : Log) (instruction : Bool) (es : List Event) :
    Prop where
  translations : l.translations cfg instruction = translationsFrom cfg Arch.initial es
  arch : Follows cfg s instruction es

/-! ## A lane over an edge -/

section Lane

variable {cfg : Config} {s : State} {i : Input} {b : Bool} {x : Access}

theorem laneAccess_instruction : (laneAccess s b).instruction = b := by
  cases b <;> rfl

/-- A lane that accepts is free. -/
theorem of_laneTaken (ha : laneTaken cfg s i b = some x) :
    (laneState s b = .idle ∨ laneState s b = .response) ∧ x.instruction = b := by
  cases b with
  | true =>
    simp only [laneTaken, if_true, fetchTaken, Option.map_eq_some_iff] at ha
    obtain ⟨q, hq, rfl⟩ := ha
    split_ifs at hq with hacc
    exact ⟨iState_of_iAccept hacc, rfl⟩
  | false =>
    simp only [laneTaken, Bool.false_eq_true, if_false, dataTaken, Option.map_eq_some_iff] at ha
    obtain ⟨q, hq, rfl⟩ := ha
    split_ifs at hq with hacc
    exact ⟨dState_of_dAccept hacc, rfl⟩

/-- What a lane does with the request it accepts. -/
theorem laneState_taken (ha : laneTaken cfg s i b = some x) :
    (laneHit cfg s i b = true → laneState (runState cfg s i) b = .offer ∨
        laneState (runState cfg s i) b = .response) ∧
      (laneHit cfg s i b = false → laneState (runState cfg s i) b = .wait ∨
        (laneState (runState cfg s i) b = .slow ∧ s.route = .idle ∧ choose cfg s i = true)) ∧
      laneAccess (runState cfg s i) b = x := by
  cases b with
  | true =>
    simp only [laneTaken, if_true, fetchTaken, Option.map_eq_some_iff] at ha
    obtain ⟨q, hq, rfl⟩ := ha
    split_ifs at hq with hacc
    obtain rfl := Option.some.inj hq
    have hstate : nextIState cfg s i = iAcceptState cfg s i := by
      obtain ⟨-, -, hidle | hfin⟩ := of_iAccept hacc
      · simp [nextIState, hidle, hacc]
      · obtain ⟨hs, -, hre, herr, -⟩ := of_iFinish hfin
        simp [nextIState, hs, hre, herr, hacc]
    refine ⟨?_, ?_, by simp [laneAccess, runState, hacc, fetchAccess]⟩
    · intro hhit
      have hhit' : iHit cfg s i = true := hhit
      show nextIState cfg s i = .offer ∨ nextIState cfg s i = .response
      rw [hstate, iAcceptState, if_pos hhit']
      split_ifs <;> simp
    · intro hhit
      have hhit' : iHit cfg s i = false := hhit
      show nextIState cfg s i = .wait ∨ (nextIState cfg s i = .slow ∧ _)
      rw [hstate, iAcceptState, hhit', if_neg Bool.false_ne_true]
      split_ifs with hch
      · exact Or.inr ⟨rfl, (of_chooseInstruction hch).1, by simp [choose, hch]⟩
      · exact Or.inl rfl
  | false =>
    simp only [laneTaken, Bool.false_eq_true, if_false, dataTaken, Option.map_eq_some_iff] at ha
    obtain ⟨q, hq, rfl⟩ := ha
    split_ifs at hq with hacc
    obtain rfl := Option.some.inj hq
    have hstate : (dPipeAccept cfg s i = true ∧ nextDState cfg s i = .response) ∨
        (dPipeAccept cfg s i = false ∧ nextDState cfg s i = dAcceptState cfg s i) := by
      obtain ⟨-, -, hp | ⟨hp, hidle | ⟨hfin, -⟩⟩⟩ := of_dAccept hacc
      · left
        rcases dState_of_dAccept hacc with hx | hx <;> simp [nextDState, hx, hp]
      · exact Or.inr ⟨hp, by simp [nextDState, hidle, hp, hacc]⟩
      · exact Or.inr ⟨hp, by simp [nextDState, (of_dFinish hfin).1, hp, hacc]⟩
    refine ⟨?_, ?_, by simp [laneAccess, runState, hacc, DataReq.access]⟩
    · intro hhit
      have hhit' : dHit cfg s i = true := hhit
      show nextDState cfg s i = .offer ∨ nextDState cfg s i = .response
      rcases hstate with ⟨-, hs⟩ | ⟨-, hs⟩
      · exact Or.inr hs
      · rw [hs, dAcceptState, if_pos hhit']
        exact Or.inl rfl
    · intro hhit
      have hhit' : dHit cfg s i = false := hhit
      show nextDState cfg s i = .wait ∨ (nextDState cfg s i = .slow ∧ _)
      rcases hstate with ⟨hp, -⟩ | ⟨-, hs⟩
      · simp only [dPipeAccept, Bool.and_eq_true] at hp
        rw [(of_dPipeTry hp.1).2.1] at hhit'
        cases hhit'
      · rw [hs, dAcceptState, hhit', if_neg Bool.false_ne_true]
        split_ifs with hch
        · exact Or.inr ⟨rfl, (of_chooseData hch).1, by simp [choose, hch]⟩
        · exact Or.inl rfl

/-- What a lane does that accepts nothing. -/
theorem laneState_kept (ha : laneTaken cfg s i b = none) :
    laneAccess (runState cfg s i) b = laneAccess s b ∧
      (laneState (runState cfg s i) b = .wait → laneState s b = .wait) ∧
      (laneState (runState cfg s i) b = .slow → laneState s b = .wait ∨ laneState s b = .slow) := by
  cases b with
  | true =>
    have hacc : iAccept cfg s i = false := by simpa [laneTaken, fetchTaken] using ha
    refine ⟨by simp [laneAccess, runState, hacc], ?_, ?_⟩
    · show nextIState cfg s i = .wait → s.iState = .wait
      intro hn
      unfold nextIState at hn
      cases hs : s.iState <;> simp_all
      all_goals split_ifs at hn
    · show nextIState cfg s i = .slow → s.iState = .wait ∨ s.iState = .slow
      intro hn
      unfold nextIState at hn
      cases hs : s.iState <;> simp_all
      all_goals split_ifs at hn
  | false =>
    have hacc : dAccept cfg s i = false := by simpa [laneTaken, dataTaken] using ha
    have hp := not_dPipeAccept hacc
    refine ⟨by simp [laneAccess, runState, hacc], ?_, ?_⟩
    · show nextDState cfg s i = .wait → s.dState = .wait
      intro hn
      unfold nextDState at hn
      cases hs : s.dState <;> simp_all
      all_goals split_ifs at hn
    · show nextDState cfg s i = .slow → s.dState = .wait ∨ s.dState = .slow
      intro hn
      unfold nextDState at hn
      cases hs : s.dState <;> simp_all
      all_goals split_ifs at hn

/-- A lane that is chosen is taken up. -/
theorem of_chooseLane (hch : chooseLane cfg s i b = true) :
    s.route = .idle ∧ choose cfg s i = true := by
  cases b with
  | true =>
    have hch' : chooseInstruction cfg s i = true := hch
    exact ⟨(of_chooseInstruction hch').1, by simp [choose, hch']⟩
  | false =>
    have hch' : chooseData cfg s i = true := hch
    exact ⟨(of_chooseData hch').1, by simp [choose, hch']⟩

/-- A request is looked up no earlier than it is taken up. -/
theorem nextRoute_early : (nextRoute cfg s i).early = true ↔
    (s.route = .idle ∧ choose cfg s i = true) ∨
      (s.route.early = true ∧ nextRoute cfg s i ≠ .pageResponse ∧
        (s.route = .translateResponse → batReply s = true →
          s.bat.response.translation.allow = false ∧
            cleanBatPageMiss cfg s.request s.bat.response = true) ∧
        (s.route = .segmentResponse → s.segment.rspValid = true → snapshotGood s = true)) := by
  unfold nextRoute batReply
  cases hs : s.route <;> simp only [RouteState.early, reduceCtorEq, false_and, true_and, or_false,
    false_or, decide_true, Bool.true_and, forall_const, false_implies]
  all_goals try split_ifs
  all_goals simp_all

end Lane

/-! ## The request still to be looked up -/

section Untranslated

variable {cfg : Config} {s : State} {i : Input} {b : Bool} (hc : Ctrl cfg s) (h : Seq cfg s)
  (hrst : i.rstN = true)

theorem untranslated_free (hs : laneState s b = .idle ∨ laneState s b = .response ∨
    laneState s b = .offer) : untranslated s b = false := by
  rcases hs with hs | hs | hs <;> simp [untranslated, hs]

include hc

/-- What has been looked up stays so. -/
theorem translated_kept (ha : laneTaken cfg s i b = none) (hu : untranslated s b = false) :
    untranslated (runState cfg s i) b = false := by
  obtain ⟨-, hwait, hslow⟩ := laneState_kept ha
  by_contra hn
  simp only [untranslated, Bool.not_eq_false, Bool.or_eq_true, Bool.and_eq_true,
    decide_eq_true_eq, Bool.not_eq_true'] at hn
  simp only [untranslated, Bool.or_eq_false_iff, decide_eq_false_iff_not] at hu
  rcases hn with hn | ⟨hn, hroute⟩
  · exact hu.1 (hwait hn)
  · have hs := (hslow hn).resolve_left hu.1
    have hne : s.route ≠ .idle := ((laneState_slow hc).1 hs).1
    simp only [hs, decide_true, Bool.true_and, Bool.or_eq_false_iff] at hu
    rcases hroute with hearly | ⟨hpage, -⟩
    · rcases nextRoute_early.1 hearly with ⟨hidle, -⟩ | ⟨hold, -⟩
      · exact hne hidle
      · rw [hu.2.1] at hold
        exact Bool.false_ne_true hold
    · rcases nextRoute_pageResponse.1 hpage with ⟨hoffer, -⟩ | ⟨hresp, hrv⟩
      · rw [hoffer] at hu
        exact absurd hu.2.1 (by simp [RouteState.early])
      · rw [hresp, hrv] at hu
        exact absurd hu.2.2 (by simp)

include h hrst

/-- What is still to be looked up stays so, or is looked up on this edge, or needs no
lookup. -/
theorem untranslated_kept (hu : untranslated s b = true) :
    untranslated (runState cfg s i) b = true ∨
      (s.request.instruction = b ∧ s.route = .pageResponse ∧ s.tlb.lookup = true) ∨
      (s.request.instruction = b ∧ touchedBy cfg s.arch (slowAccess s) = s.arch) := by
  simp only [untranslated, Bool.or_eq_true, Bool.and_eq_true, decide_eq_true_eq,
    Bool.not_eq_true'] at hu
  rcases hu with hs | ⟨hs, hroute⟩
  · -- the lane waits for the sequence
    left
    have hn := @wait_step cfg s i b hs
    split_ifs at hn with hch
    · have hearly : (runState cfg s i).route.early = true :=
        nextRoute_early.2 (Or.inl (of_chooseLane hch))
      simp [untranslated, hn, hearly]
    · simp [untranslated, hn]
  · obtain ⟨hne, hside⟩ := (laneState_slow hc).1 hs
    have hb := hc.busy hne
    have hc' : Ctrl cfg (runState cfg s i) := by
      rw [← step_run hrst]
      exact ctrl_step hc
    obtain ⟨hreq, -⟩ := @slowAccess_step cfg s i hc hne
    obtain ⟨-, hrvT, -, -⟩ := busy_tlb hc hb
    -- the lane is slow as long as the sequence runs
    have hslow : (runState cfg s i).route ≠ .idle →
        laneState (runState cfg s i) b = .slow := by
      intro hne'
      refine (laneState_slow hc').2 ⟨hne', ?_⟩
      rw [hreq, hside]
    rcases hroute with hearly | ⟨hpage, hrv⟩
    · have hnoLookup : s.tlb.lookup = false ∧ s.tlb.responseValid = false := by
        have hno : s.route ≠ .pageResponse := by
          intro hr
          simp [hr, RouteState.early] at hearly
        simpa [hno] using hrvT
      by_cases hpage : nextRoute cfg s i = .pageResponse
      · left
        have hrv' : (runState cfg s i).tlb.responseValid = false := by
          show (Tlb.step cfg.tlb s.tlb (tlbInput cfg s i)).responseValid = false
          rw [Tlb.responseValid_step hrst, hnoLookup.1, hnoLookup.2]
          simp
        have hpage' : (runState cfg s i).route = .pageResponse := hpage
        have hs' := hslow (by simp [hpage'])
        simp [untranslated, hs', hpage', hrv']
      · by_cases hearly' : (nextRoute cfg s i).early = true
        · left
          have hroute' : (runState cfg s i).route.early = true := hearly'
          have hs' := hslow (by
            intro hidle
            rw [hidle] at hroute'
            exact absurd hroute' (by simp [RouteState.early]))
          simp [untranslated, hs', hroute']
        · -- the block address reply has ended the translation
          right; right
          refine ⟨hside, ?_⟩
          have hgood : s.route = .segmentResponse → s.segment.rspValid = true →
              snapshotGood s = true := by
            intro hr hv
            have hbad := not_snapshotBad h
            simpa [snapshotBad, hr, hv] using hbad
          have hend : ¬ (s.route = .translateResponse → batReply s = true →
              s.bat.response.translation.allow = false ∧
                cleanBatPageMiss cfg s.request s.bat.response = true) := by
            intro hbat
            exact hearly' (nextRoute_early.2 (Or.inr ⟨hearly, hpage, hbat, hgood⟩))
          simp only [Classical.not_imp, not_and, Bool.not_eq_true] at hend
          obtain ⟨hr, -, hend⟩ := hend
          rw [touchedBy, ← h.taken hne, ← h.batSaid hr]
          apply if_neg
          intro hmiss
          cases hallow : s.bat.response.translation.allow with
          | true => simp [cleanBatPageMiss, hallow] at hmiss
          | false =>
            rw [hend hallow] at hmiss
            exact Bool.false_ne_true hmiss
    · right; left
      refine ⟨hside, hpage, ?_⟩
      simpa [hpage, hrv] using hrvT

end Untranslated

/-! ## Over an edge -/

section Step

variable {cfg : Config} {s : State} {i : Input} {l : Log} {b : Bool} {es : List Event} {x : Access}

/-- What an edge adds to what has become of the requests. -/
theorem translations_update (hrst : i.rstN = true) : (l.update cfg s i).translations cfg b =
    l.translations cfg b ++ ((laneTaken cfg s i b).map fun x => (x, outcome cfg s.arch x)).toList := by
  rw [Log.update, if_pos hrst]
  cases b with
  | true =>
    simp only [Log.translations, laneTaken, if_true, Traffic.add, List.map_append]
    cases hq : fetchTaken cfg s i with
    | none => rfl
    | some q =>
      have harch : q.arch = s.arch := by
        rw [fetchTaken] at hq
        split_ifs at hq
        rw [← Option.some.inj hq]
      simp [FetchTaken.outcome, harch]
  | false =>
    simp only [Log.translations, laneTaken, Bool.false_eq_true, if_false, Traffic.add,
      List.map_append]
    cases hq : dataTaken cfg s i with
    | none => rfl
    | some q =>
      have harch : q.arch = s.arch := by
        rw [dataTaken] at hq
        split_ifs at hq
        rw [← Option.some.inj hq]
      simp [DataTaken.outcome, harch]

/-- A hit would have moved nothing. -/
theorem laneHit_settled (hc : Ctrl cfg s) (hr : Repeats cfg s) (hset : Settles cfg s)
    (hproj : ProjectionAgrees cfg i) (ha : laneTaken cfg s i b = some x)
    (hhit : laneHit cfg s i b = true) : touchedBy cfg s.arch x = s.arch := by
  have hquiet : s.request.instruction = b → routeSetTouch s = false := by
    intro hside
    by_contra htouch
    simp only [routeSetTouch, pageReply, Bool.not_eq_false, Bool.and_eq_true,
      decide_eq_true_eq] at htouch
    have hs := (laneState_slow hc).2 ⟨by simp [htouch.1.1], hside⟩
    rcases (of_laneTaken ha).1 with hfree | hfree <;> simp [hs] at hfree
  cases b with
  | true =>
    simp only [laneTaken, if_true, fetchTaken, Option.map_eq_some_iff] at ha
    obtain ⟨q, hq, rfl⟩ := ha
    split_ifs at hq
    rw [← Option.some.inj hq]
    exact iHit_settled hr hset hquiet hhit
  | false =>
    simp only [laneTaken, Bool.false_eq_true, if_false, dataTaken, Option.map_eq_some_iff] at ha
    obtain ⟨q, hq, rfl⟩ := ha
    split_ifs at hq with hacc
    rw [← Option.some.inj hq]
    exact dHit_settled hr hset hquiet (of_dAccept hacc).1 hproj hhit

/-- On an edge with updates the history grows by them. -/
theorem replays_updating (hc : Ctrl cfg s) (h : Seq cfg s) (hlook : LooksUp s)
    (hrst : i.rstN = true) (hu : Updating cfg s i) (hp : Replays cfg s l b es) :
    Replays cfg (runState cfg s i) (l.update cfg s i) b (es ++ edgeEvents cfg s i b) := by
  obtain ⟨hidle, hroute, hi, hd⟩ := updating_quiet hc hu
  have htaken : laneTaken cfg s i b = none := by
    cases b with
    | true => simp [laneTaken, fetchTaken, hi]
    | false => simp [laneTaken, dataTaken, hd]
  have hfree : laneState s b = .idle := by
    obtain ⟨his, hds⟩ := lanesIdle_iff.1 hidle
    cases b with
    | true => exact his
    | false => exact hds
  have hu0 : untranslated s b = false := untranslated_free (Or.inl hfree)
  have hu1 := translated_kept hc htaken hu0
  have harch := arch_updates h hrst fun hl => hlook hl (by simp [hroute])
  rw [step_run hrst] at harch
  have hnew : edgeEvents cfg s i b = (updates cfg s i).map Event.update := by
    simp [edgeEvents, htaken]
  rw [hnew]
  constructor
  · rw [translations_update hrst, htaken, hp.translations, translationsFrom_append,
      translationsFrom_updates]
    rfl
  · have hold := hp.arch
    rw [Follows, hu0, if_neg Bool.false_ne_true] at hold
    rw [Follows, hu1, if_neg Bool.false_ne_true, harch, replay_updates]
    exact foldl_agrees hold

/-- On an edge without updates that accepts nothing the history stays. -/
theorem follows_kept (hc : Ctrl cfg s) (h : Seq cfg s) (hrst : i.rstN = true)
    (hu : ¬ Updating cfg s i) (ha : laneTaken cfg s i b = none) (hp : Follows cfg s b es) :
    Follows cfg (runState cfg s i) b es := by
  simp only [Updating, not_or, Bool.not_eq_false, Bool.not_eq_true, not_not] at hu
  obtain ⟨hrun, hown, hctx⟩ := hu
  have harch := arch_unowned hc h hrst hrun hown hctx
  rw [step_run hrst] at harch
  obtain ⟨haccess, hwait, -⟩ := laneState_kept ha
  -- what the other lane's lookup moves is not seen
  have hother : ¬ (s.tlb.lookup = true ∧ s.request.instruction = b) →
      Agrees (!b) s.arch (runState cfg s i).arch := by
    intro hno
    rw [harch]
    split_ifs with hl
    · have hflip : s.request.instruction = !b := by
        cases hx : s.request.instruction <;> cases b <;> simp_all
      rw [← hflip]
      exact agrees_touched
    · exact Agrees.refl _ _
  cases hun : untranslated s b with
  | false =>
    rw [Follows, hun, if_neg Bool.false_ne_true] at hp
    rw [Follows, translated_kept hc ha hun, if_neg Bool.false_ne_true]
    refine hp.trans (hother ?_)
    rintro ⟨hl, hside⟩
    have hroute := route_of_lookup hc hown hl
    have hs := (laneState_slow hc).2 ⟨show s.route ≠ .idle by simp [hroute], hside⟩
    obtain ⟨-, -, honce, -⟩ := busy_tlb hc (hc.busy (show s.route ≠ .idle by simp [hroute]))
    have hrv : s.tlb.responseValid = false := by simpa [hl] using honce
    simp [untranslated, hs, hroute, hrv] at hun
  | true =>
    rw [Follows, hun, if_pos rfl] at hp
    obtain ⟨before, rfl, hagree⟩ := hp
    have hside : (!(laneAccess s b).instruction) = !b := by rw [laneAccess_instruction]
    have htouch := @touchedBy_agrees cfg _ _ (laneAccess s b) (by rw [hside]; exact hagree)
    rw [hside] at htouch
    by_cases hlookup : s.tlb.lookup = true ∧ s.request.instruction = b
    · -- its own lookup
      obtain ⟨hl, hlane⟩ := hlookup
      have hroute := route_of_lookup hc hown hl
      have hne : s.route ≠ .idle := by simp [hroute]
      obtain ⟨hroute', -, -, hrv', harch', -⟩ := looked_up (i := i) hc h hrst hroute hl
      have hu' : untranslated (runState cfg s i) b = false := by
        rw [(laneState_slow hc).2 ⟨hne, hlane⟩] at hwait
        simp only [untranslated, Bool.or_eq_false_iff, decide_eq_false_iff_not]
        refine ⟨fun hn => absurd (hwait hn) (by simp), ?_⟩
        simp [hroute', hrv', RouteState.early]
      have hslow : laneAccess s b = slowAccess s := by rw [slowAccess, hlane]
      have hmoved : touchedBy cfg s.arch (laneAccess s b) = (runState cfg s i).arch := by
        rw [hslow, touchedBy, ← h.taken hne, harch', h.word (Or.inr hroute)]
        exact if_pos (h.missed (by simp [hroute, RouteState.paging])).2
      rw [Follows, hu', if_neg Bool.false_ne_true, replay_request, ← hmoved]
      exact htouch
    · cases hu' : untranslated (runState cfg s i) b with
      | true =>
        rw [Follows, hu', if_pos rfl, haccess]
        exact ⟨before, rfl, hagree.trans (hother hlookup)⟩
      | false =>
        rw [Follows, hu', if_neg Bool.false_ne_true, replay_request]
        rcases untranslated_kept hc h hrst hun with hn | ⟨hlane, -, hl⟩ | ⟨hlane, hself⟩
        · rw [hn] at hu'
          exact absurd hu' (by simp)
        · exact absurd ⟨hl, hlane⟩ hlookup
        · have hslow : laneAccess s b = slowAccess s := by rw [slowAccess, hlane]
          rw [hslow, hself] at htouch
          rw [hslow]
          exact htouch.trans (hother hlookup)

/-- On an edge that accepts a request the history grows by it. -/
theorem follows_taken (hc : Ctrl cfg s) (h : Seq cfg s) (hr : Repeats cfg s)
    (hset : Settles cfg s) (hproj : ProjectionAgrees cfg i) (hrst : i.rstN = true)
    (hu : ¬ Updating cfg s i) (ha : laneTaken cfg s i b = some x) (hp : Follows cfg s b es) :
    Agrees (!b) (replay cfg es) s.arch ∧
      Follows cfg (runState cfg s i) b (es ++ [.request x]) := by
  simp only [Updating, not_or, Bool.not_eq_false, Bool.not_eq_true, not_not] at hu
  obtain ⟨hrun, hown, hctx⟩ := hu
  have harch := arch_unowned hc h hrst hrun hown hctx
  rw [step_run hrst] at harch
  obtain ⟨hfree, rfl⟩ := of_laneTaken ha
  obtain ⟨hhit, hmiss, haccess⟩ := laneState_taken ha
  have hun : untranslated s x.instruction = false := by
    rcases hfree with hs | hs <;> simp [untranslated, hs]
  rw [Follows, hun, if_neg Bool.false_ne_true] at hp
  -- the lookup on its way is the other lane's
  have hother : Agrees (!x.instruction) s.arch (runState cfg s i).arch := by
    rw [harch]
    split_ifs with hl
    · have hroute := route_of_lookup hc hown hl
      have hflip : s.request.instruction = !x.instruction := by
        by_contra hno
        have hlane : s.request.instruction = x.instruction := by
          cases hx : s.request.instruction <;> cases hy : x.instruction <;> simp_all
        have hs := (laneState_slow hc).2 ⟨show s.route ≠ .idle by simp [hroute], hlane⟩
        rcases hfree with hf | hf <;> simp [hs] at hf
      rw [← hflip]
      exact agrees_touched
    · exact Agrees.refl _ _
  refine ⟨hp, ?_⟩
  cases hh : laneHit cfg s i x.instruction with
  | true =>
    have hu' : untranslated (runState cfg s i) x.instruction = false := by
      rcases hhit hh with hs | hs <;> simp [untranslated, hs]
    have htouch := @touchedBy_agrees cfg _ _ x hp
    rw [laneHit_settled hc hr hset hproj ha hh] at htouch
    rw [Follows, hu', if_neg Bool.false_ne_true, replay_request]
    exact htouch.trans hother
  | false =>
    have hu' : untranslated (runState cfg s i) x.instruction = true := by
      rcases hmiss hh with hs | ⟨hs, hidle, hch⟩
      · simp [untranslated, hs]
      · have hearly : (runState cfg s i).route.early = true :=
          nextRoute_early.2 (Or.inl ⟨hidle, hch⟩)
        simp [untranslated, hs, hearly]
    rw [Follows, hu', if_pos rfl, haccess]
    exact ⟨es, rfl, hp.trans hother⟩

/-- **A lane follows the replay of its history**, over an edge. -/
theorem replays_step (hc : Ctrl cfg s) (h : Seq cfg s) (hr : Repeats cfg s)
    (hset : Settles cfg s) (hlook : LooksUp s) (hproj : ProjectionAgrees cfg i)
    (hrst : i.rstN = true) (hp : Replays cfg s l b es) :
    Replays cfg (runState cfg s i) (l.update cfg s i) b (es ++ edgeEvents cfg s i b) := by
  by_cases hu : Updating cfg s i
  · exact replays_updating hc h hlook hrst hu hp
  have hnone := updates_nil hc hu
  cases ha : laneTaken cfg s i b with
  | none =>
    have hnew : edgeEvents cfg s i b = [] := by simp [edgeEvents, hnone, ha]
    rw [hnew, List.append_nil]
    constructor
    · rw [translations_update hrst, ha, hp.translations]
      simp
    · exact follows_kept hc h hrst hu ha hp.arch
  | some x =>
    have hnew : edgeEvents cfg s i b = [.request x] := by simp [edgeEvents, hnone, ha]
    obtain ⟨hbefore, hafter⟩ := follows_taken hc h hr hset hproj hrst hu ha hp.arch
    rw [hnew]
    constructor
    · have hside := (of_laneTaken ha).2
      rw [← hside] at hbefore
      have hout : outcome cfg s.arch x = outcome cfg (replay cfg es) x := outcome_agrees hbefore
      rw [translations_update hrst, ha, hp.translations, translationsFrom_append, Option.map_some,
        hout]
      rfl
    · exact hafter

theorem replays_reset (hrst : i.rstN = false) : Replays cfg (step cfg s i) Log.empty b [] := by
  obtain ⟨hbat, hseg, htlb⟩ := @services_reset cfg s i hrst
  rw [step_reset hrst]
  constructor
  · cases b <;> rfl
  · have hu : untranslated (resetState cfg s i) b = false := by
      apply untranslated_free
      cases b <;> exact Or.inl rfl
    rw [Follows, hu, if_neg Bool.false_ne_true]
    have hflags : (resetState cfg s i).arch.tlb.valid = (fun _ _ _ => false) ∧
        (resetState cfg s i).arch.tlb.lru = (fun _ _ => false) := by
      simp only [State.arch, resetState, htlb, Tlb.resetState, Tlb.writeRam]
      split_ifs <;> exact ⟨rfl, rfl⟩
    refine ⟨?_, ?_, hflags.1, ?_, ?_, rfl, rfl, rfl, rfl⟩
    · simp only [State.arch, resetState, hbat]
      rfl
    · simp only [State.arch, resetState, hseg]
      rfl
    · intro b' way set hv
      cases hv
    · rw [hflags.2]
      rfl

/-- A lane follows the replay of its history, along a run. -/
theorem replays_run (r : Run (machine cfg)) {n : ℕ} (hproj : Projected r n) (b : Bool) :
    Replays cfg (r.state n) (log r n) b (events r b n) := by
  induction n with
  | zero =>
    obtain ⟨s₀, i, hrst, heq⟩ := r.initial
    rw [Run.state_zero, heq]
    exact replays_reset hrst
  | succ n ih =>
    have hlog : log r (n + 1) = (log r n).update cfg (r.state n) (r.input n) := rfl
    have hevents : events r b (n + 1) = if (r.input n).rstN then
        events r b n ++ edgeEvents cfg (r.state n) (r.input n) b else [] := rfl
    show Replays cfg (step cfg (r.state n) (r.input n)) _ b _
    rw [hlog, hevents]
    cases hrst : (r.input n).rstN with
    | true =>
      rw [step_run hrst, if_pos rfl]
      exact replays_step (ctrl_run r n) (seq_run r n) (repeats_run r n) (settles_run r n)
        (looksUp_run r n) (hproj n (Nat.lt_succ_self n)) hrst (ih (hproj.mono (Nat.le_succ n)))
    | false =>
      rw [Log.update, if_neg (by simp [hrst]), if_neg Bool.false_ne_true]
      exact replays_reset hrst

end Step

end Router
end SloPPC603
