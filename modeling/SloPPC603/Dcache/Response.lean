import SloPPC603.Dcache.Structure

/-!
# Answers

The response registers hold one answer at a time.  `ResponseInv` says their
status bits are clear when they hold none, that they hold none in a lookup, and
that an operation past its lookup has put none there unless it was answered
early.
-/

namespace SloPPC603
namespace Dcache

variable {cfg : Config} {s : State} {i : Input}

/-- The response registers between answers and during an operation. -/
structure ResponseInv (s : State) : Prop where
  status : s.rsp.valid = false → s.rsp.error = false ∧ s.rsp.align = false ∧ s.rsp.ok = false
  lookup : s.state = .lookup → s.rsp.valid = false ∧ s.rspSent = false
  pending : s.state ≠ .idle → s.rspSent = false → s.rsp.valid = false

theorem rspCleared_of_invalid (h : s.rsp.valid = false) : rspCleared s i = s.rsp := by
  simp [rspCleared, h]

theorem status_cleared (hr : ResponseInv s) (h : (rspCleared s i).valid = false) :
    (rspCleared s i).error = false ∧ (rspCleared s i).align = false ∧
      (rspCleared s i).ok = false := by
  unfold rspCleared at h ⊢
  split_ifs at h ⊢
  · exact ⟨rfl, rfl, rfl⟩
  · exact hr.status h

/-- A machine in a lookup after the edge took its request on the edge, with the
response registers free, or has stayed in the lookup. -/
theorem next_lookup (h : nextState cfg s i = .lookup) :
    (reqAccept cfg s i = true ∧
        ((s.state = .idle ∧ s.rsp.valid = false) ∨
          (s.state = .lookup ∧ lkGo cfg s i = true ∧ lkAnswers cfg s i = false ∧
            (lkFastDone cfg s i || lkFastStDone cfg s i) = true))) ∨
      (s.state = .lookup ∧ lkGo cfg s i = false ∧ reqAccept cfg s i = false) := by
  cases hready : reqReady cfg s i with
  | true =>
    have hn := nextState_of_reqReady hready
    rw [h] at hn
    split_ifs at hn with hacc
    refine Or.inl ⟨hacc, ?_⟩
    simp only [reqReady, Bool.and_eq_true, Bool.or_eq_true, decide_eq_true_eq,
      Bool.not_eq_true'] at hready
    rcases hready.2 with (hidle | hfast) | hfast
    · exact Or.inl hidle
    · have hdone := hfast
      simp only [lkFastDone, Bool.and_eq_true] at hfast
      obtain ⟨hgo, hans, -⟩ := lkFast_spec hfast.1
      exact Or.inr ⟨(lkGo_spec hgo).1, hgo, hans, by simp [hdone]⟩
    · simp only [lkFastStNext, Bool.and_eq_true] at hfast
      have hdone := hfast.1
      simp only [lkFastStDone, Bool.and_eq_true] at hdone
      obtain ⟨hgo, hans, -⟩ := lkFastSt_spec hdone.1
      exact Or.inr ⟨(lkGo_spec hgo).1, hgo, hans, by simp [hfast.1]⟩
  | false =>
    have hacc := not_reqAccept_of_not_ready hready
    refine Or.inr ?_
    have hst : s.state = .lookup := by
      cases hd : stepDone s i with
      | true =>
        rw [nextState, if_pos hd] at h
        exact absurd h (firstStep_ne_lookup _)
      | false =>
        rw [nextState, hd, if_neg (by simp)] at h
        cases hs : s.state <;> simp only [hs, reduceCtorEq] at h <;> (try split_ifs at h) <;>
          simp_all
    refine ⟨hst, ?_, hacc⟩
    cases hgo : lkGo cfg s i with
    | false => rfl
    | true =>
      have hd : stepDone s i = false := by simp [stepDone, hst]
      simp only [nextState, hd, hst, hgo, afterLookup, hacc, Bool.false_eq_true, if_false,
        if_true] at h
      split_ifs at h
      exact absurd h (firstStep_ne_lookup _)

theorem cleared_of_pending (h : s.rsp.valid = false) : (rspCleared s i).valid = false := by
  rw [rspCleared_of_invalid h, h]

/-- What the registers hold going into a lookup. -/
theorem lookup_running (hr : ResponseInv s) (h : nextState cfg s i = .lookup) :
    (nextRsp cfg s i).valid = false ∧ nextRspSent cfg s i = false := by
  rcases next_lookup h with ⟨hacc, ⟨hst, hv⟩ | ⟨hst, hgo, hans, hfast⟩⟩ | ⟨hst, hgo, -⟩
  · have hd : stepAnswers s i = false := by simp [stepAnswers, stepDone, hst]
    exact ⟨by simp [nextRsp, hd, rspFsm, hst, cleared_of_pending hv],
      by simp [nextRspSent, hst, hacc]⟩
  · have hd : stepAnswers s i = false := by simp [stepAnswers, stepDone, hst]
    exact ⟨by simp [nextRsp, hd, rspFsm, hst, hgo, hans, hfast,
        cleared_of_pending (hr.lookup hst).1],
      by simp [nextRspSent, hst, hgo, hans, hfast]⟩
  · have hd : stepAnswers s i = false := by simp [stepAnswers, stepDone, hst]
    exact ⟨by simp [nextRsp, hd, rspFsm, hst, hgo, cleared_of_pending (hr.lookup hst).1],
      by simp [nextRspSent, hst, hgo, (hr.lookup hst).2]⟩

/-- An operation still in progress after the edge, and not answered early, has
not been answered. -/
theorem pending_running (hr : ResponseInv s) (hne : nextState cfg s i ≠ .idle)
    (hsent : nextRspSent cfg s i = false) : (nextRsp cfg s i).valid = false := by
  have hans : stepAnswers s i = false := by
    cases ha : stepAnswers s i with
    | false => rfl
    | true =>
      simp only [stepAnswers, Bool.and_eq_true, decide_eq_true_eq] at ha
      exact absurd (by rw [nextState, if_pos ha.1.1.1, ha.1.1.2]) hne
  by_cases hlk : nextState cfg s i = .lookup
  · exact (lookup_running hr hlk).1
  · have hold : s.state ≠ .idle → s.rspSent = false → (rspCleared s i).valid = false :=
      fun h1 h2 => cleared_of_pending (hr.pending h1 h2)
    have hlook : s.state = .lookup → (rspCleared s i).valid = false :=
      fun h => cleared_of_pending (hr.lookup h).1
    rw [nextRsp, hans, if_neg (by simp)]
    unfold rspFsm
    cases hs : s.state <;> simp only [hs, ne_eq, reduceCtorEq, not_false_eq_true, forall_const,
      not_true_eq_false, IsEmpty.forall_iff] at hold hlook ⊢
    case idle =>
      have hn : nextState cfg s i = if reqAccept cfg s i then .lookup else .idle := by
        simp [nextState, stepDone, hs]
      split_ifs at hn
      · exact absurd hn hlk
      · exact absurd hn hne
    case lookup =>
      have hd : stepDone s i = false := by simp [stepDone, hs]
      split_ifs with hgo h1 h2 h3
      · exact absurd (by simp [nextState, hd, hs, hgo, afterLookup, h1]) hne
      · exact hlook
      · exact absurd (by simp [nextState, hd, hs, hgo, afterLookup, h1, h2, h3]) hne
      · exact hlook
      · exact hlook
    case readData => exact absurd (by simp [nextState, stepDone, hs]) hne
    case syncWait =>
      simp only [nextRspSent, hs] at hsent
      split_ifs with h1
      · exact absurd (by simp [nextState, stepDone, hs, h1]) hne
      · exact hold hsent
    case fillWait =>
      simp only [nextRspSent, hs] at hsent
      split_ifs at hsent ⊢
      all_goals exact hold hsent
    case sreadWait =>
      simp only [nextRspSent, hs] at hsent
      split_ifs at hsent ⊢
      exact hold hsent
    all_goals
      simp only [nextRspSent, hs] at hsent
      exact hold hsent

/-- **The response registers survive every edge.** -/
theorem responseInv_step (hr : ResponseInv s) : ResponseInv (running cfg s i) where
  status h := by
    have hrsp : (running cfg s i).rsp = nextRsp cfg s i := rfl
    rw [hrsp] at h ⊢
    unfold nextRsp at h ⊢
    split_ifs at h ⊢
    unfold rspFsm at h ⊢
    cases hs : s.state <;> simp only [hs] at h ⊢ <;> (try split_ifs at h ⊢) <;>
      first
      | exact status_cleared hr h
      | simp at h
  lookup h := lookup_running hr h
  pending hne hsent := pending_running hr hne hsent

theorem responseInv_initial (h : (machine cfg).Initial s) : ResponseInv s := by
  obtain ⟨hst, -⟩ := state_initial h
  obtain ⟨s₀, i, hrst, rfl⟩ := h
  refine ⟨?_, ?_, ?_⟩
  · simp [step, hrst, reset]
  · simp [hst]
  · simp [hst]

theorem responseInv_run {r : Clocked.Run (machine cfg)} {n : ℕ} (h : r.Obeys OutOfReset n) :
    ResponseInv (r.state n) :=
  Clocked.Run.invariant (fun _ hs => responseInv_initial hs)
    (fun s i hs hi => by
      show ResponseInv (step cfg s i)
      rw [step_running hi]
      exact responseInv_step hs) h

end Dcache
end SloPPC603
