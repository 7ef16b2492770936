import Mathlib.Tactic.Common

/-!
# Words that stand

A responder offers a word on one edge and judges it on the next: the word stands unless that
edge cancels it or aborts the exchange.  A cancelling edge may offer the replacement at once,
and the replacement is judged in its turn.

* `standing` — the words of a list of edges that stand.
* `Reader.take` — the rule as a machine that reads `len` words.
* `Reader.Follows.concat` — the reader keeps the words that stand, in their order, and no others.
-/

namespace SloPPC603
namespace Clocked

variable {β : Type*}

/-! ## The words that stand -/

/-- What a responder does on one edge. -/
structure Answer (β : Type*) where
  offer : Bool
  cancel : Bool
  abort : Bool
  word : β

/-- The word of an edge and the verdict of the next. -/
def Answer.judged (a b : Answer β) : List β :=
  if a.offer && !b.cancel && !b.abort then [a.word] else []

/-- The words offered that the next edge neither cancels nor aborts. -/
def standing : List (Answer β) → List β
  | a :: b :: es => a.judged b ++ standing (b :: es)
  | _ => []

@[simp] theorem standing_nil : standing ([] : List (Answer β)) = [] := rfl

@[simp] theorem standing_singleton (a : Answer β) : standing [a] = [] := rfl

/-- **One more edge judges the last word.** -/
theorem standing_concat (es : List (Answer β)) (a b : Answer β) :
    standing (es ++ [a] ++ [b]) = standing (es ++ [a]) ++ a.judged b := by
  induction es with
  | nil => simp [standing]
  | cons e es ih =>
    cases es with
    | nil => simp [standing]
    | cons e' es =>
      simp only [List.cons_append, standing] at ih ⊢
      rw [ih, List.append_assoc]

theorem standing_of_last {es : List (Answer β)} {b : Answer β} (h : es.getLast? = some b)
    (a : Answer β) : standing (es ++ [a]) = standing es ++ b.judged a := by
  obtain ⟨l, rfl⟩ := List.getLast?_eq_some_iff.1 h
  exact standing_concat l b a

/-- An edge after one that offered nothing judges nothing. -/
theorem standing_of_quiet {es : List (Answer β)}
    (h : ∀ b, es.getLast? = some b → b.offer = false) (a : Answer β) :
    standing (es ++ [a]) = standing es := by
  cases hl : es.getLast? with
  | none =>
    rw [List.getLast?_eq_none_iff.1 hl]
    rfl
  | some b => rw [standing_of_last hl, Answer.judged, h b hl, Bool.false_and, Bool.false_and,
      if_neg Bool.false_ne_true, List.append_nil]

/-! ## A reader -/

/-- What a reader is about to judge. -/
inductive Reader.Phase (β : Type*)
  | waiting
  | held (w : β)
  | replacing
  | full
  | failed

/-- A reader and the words it has kept. -/
structure Reader (β : Type*) where
  phase : Reader.Phase β
  kept : List β

namespace Reader

/-- A reader at the start of its exchange. -/
def start : Reader β := ⟨.waiting, []⟩

/-- The reader goes on after a word has been judged. -/
def resume (kept : List β) (a : Answer β) : Reader β :=
  ⟨if a.offer then .held a.word else .waiting, kept⟩

/-- The reader goes on with the word cancelled. -/
def replace (kept : List β) (a : Answer β) : Reader β :=
  ⟨if a.offer then .held a.word else .replacing, kept⟩

/-- One edge.  A cancel with nothing to cancel, and one that ends without a replacement, are
errors of the responder. -/
def take (len : ℕ) (r : Reader β) (a : Answer β) : Reader β :=
  match r.phase with
  | .waiting => if a.abort || a.cancel then ⟨.failed, r.kept⟩ else resume r.kept a
  | .held w =>
    if a.abort then ⟨.failed, r.kept⟩
    else if a.cancel then replace r.kept a
    else if r.kept.length + 1 = len then ⟨.full, r.kept ++ [w]⟩
    else resume (r.kept ++ [w]) a
  | .replacing =>
    if a.abort || !a.cancel then ⟨.failed, r.kept⟩
    else replace r.kept a
  | .full => r
  | .failed => r

/-- The reader after some edges. -/
def run (len : ℕ) (es : List (Answer β)) : Reader β := es.foldl (take len) start

@[simp] theorem run_nil (len : ℕ) : run len ([] : List (Answer β)) = start := rfl

theorem run_concat (len : ℕ) (es : List (Answer β)) (a : Answer β) :
    run len (es ++ [a]) = take len (run len es) a := by
  rw [run, List.foldl_append]
  rfl

/-- The exchange goes on. -/
def Phase.live : Phase β → Bool
  | .full => false
  | .failed => false
  | _ => true

/-- What a phase says of the last edge. -/
def Phase.Last (last : Option (Answer β)) : Phase β → Prop
  | .waiting => ∀ a, last = some a → a.offer = false
  | .held w => ∃ a, last = some a ∧ a.offer = true ∧ a.word = w
  | .replacing => ∃ a, last = some a ∧ a.offer = false
  | _ => True

/-- A reader that has not gone past its end, against the edges it has seen. -/
structure Follows (len : ℕ) (es : List (Answer β)) : Prop where
  kept : (run len es).kept = standing es
  last : (run len es).phase.Last es.getLast?
  live : (run len es).phase.live = true → (run len es).kept.length < len
  full : (run len es).phase = .full → (run len es).kept.length = len
  short : (run len es).phase = .failed → (run len es).kept.length < len

theorem follows_nil {len : ℕ} (h : 0 < len) : Follows len ([] : List (Answer β)) where
  kept := rfl
  last := nofun
  live _ := h
  full := nofun
  short := nofun

/-- A phase that holds what the last edge offered, or waits for an offer. -/
theorem last_resume (kept : List β) (es : List (Answer β)) (a : Answer β) :
    (resume kept a).phase.Last (es ++ [a]).getLast? := by
  rw [List.getLast?_concat, resume]
  cases ha : a.offer with
  | false =>
    rintro b hb
    rwa [← Option.some.inj hb]
  | true => exact ⟨a, rfl, ha, rfl⟩

theorem last_replace (kept : List β) (es : List (Answer β)) (a : Answer β) :
    (replace kept a).phase.Last (es ++ [a]).getLast? := by
  rw [List.getLast?_concat, replace]
  cases ha : a.offer with
  | false => exact ⟨a, rfl, ha⟩
  | true => exact ⟨a, rfl, ha, rfl⟩

theorem resume_live (kept : List β) (a : Answer β) : (resume kept a).phase.live = true := by
  rw [resume]
  cases a.offer <;> rfl

theorem replace_live (kept : List β) (a : Answer β) : (replace kept a).phase.live = true := by
  rw [replace]
  cases a.offer <;> rfl

/-- **An edge of the exchange.** -/
theorem Follows.concat {len : ℕ} {es : List (Answer β)} (h : Follows len es)
    (hlive : (run len es).phase.live = true) (a : Answer β) : Follows len (es ++ [a]) := by
  have hkept := h.kept
  have hlast := h.last
  have hlt := h.live hlive
  -- a reader that goes on holds fewer words than it wants
  have hgoes : ∀ r : Reader β, run len (es ++ [a]) = r → r.phase.live = true →
      r.kept.length < len → r.kept = standing (es ++ [a]) →
      r.phase.Last (es ++ [a]).getLast? → Follows len (es ++ [a]) := by
    rintro r rfl hl hlen hk hlast
    exact ⟨hk, hlast, fun _ => hlen, fun hf => by simp [hf, Phase.live] at hl,
      fun hf => by simp [hf, Phase.live] at hl⟩
  have hfails : run len (es ++ [a]) = ⟨.failed, (run len es).kept⟩ →
      standing (es ++ [a]) = standing es → Follows len (es ++ [a]) := by
    intro hr hs
    refine ⟨?_, ?_, ?_, ?_, ?_⟩ <;> rw [hr]
    · rw [hs]
      exact hkept
    · trivial
    · exact nofun
    · exact nofun
    · exact fun _ => hlt
  have hrun := run_concat len es a
  unfold take at hrun
  cases hphase : (run len es).phase with
  | waiting =>
    rw [hphase] at hlast hrun
    have hsame := standing_of_quiet hlast a
    dsimp only at hrun
    split_ifs at hrun with hbad
    · exact hfails hrun hsame
    · exact hgoes _ hrun (resume_live _ _) hlt (hkept.trans hsame.symm) (last_resume _ _ _)
  | held w =>
    rw [hphase] at hlast hrun
    obtain ⟨b, hb, hoffer, rfl⟩ := hlast
    have hmore := standing_of_last hb a
    rw [Answer.judged, hoffer, Bool.true_and] at hmore
    dsimp only at hrun
    split_ifs at hrun with habort hcancel hfull
    · rw [habort, Bool.not_true, Bool.and_false, if_neg Bool.false_ne_true,
        List.append_nil] at hmore
      exact hfails hrun hmore
    · rw [hcancel, Bool.not_true, Bool.false_and, if_neg Bool.false_ne_true,
        List.append_nil] at hmore
      exact hgoes _ hrun (replace_live _ a) hlt (hkept.trans hmore.symm) (last_replace _ _ _)
    · rw [Bool.not_eq_true] at habort hcancel
      rw [habort, hcancel] at hmore
      refine ⟨?_, ?_, ?_, ?_, ?_⟩ <;> rw [hrun]
      · rw [hkept]
        exact hmore.symm
      · trivial
      · exact nofun
      · intro _
        rw [List.length_append]
        exact hfull
      · exact nofun
    · rw [Bool.not_eq_true] at habort hcancel
      rw [habort, hcancel] at hmore
      refine hgoes _ hrun (resume_live _ _) ?_ ?_ (last_resume _ _ _)
      · have hlen : (resume ((run len es).kept ++ [b.word]) a).kept.length =
            (run len es).kept.length + 1 := List.length_append
        omega
      · exact (congrArg (· ++ [b.word]) hkept).trans hmore.symm
  | replacing =>
    rw [hphase] at hlast hrun
    obtain ⟨b, hb, hoffer⟩ := hlast
    have hsame := standing_of_quiet (fun c hc => by rwa [← Option.some.inj (hb.symm.trans hc)]) a
    dsimp only at hrun
    split_ifs at hrun with hbad
    · exact hfails hrun hsame
    · exact hgoes _ hrun (replace_live _ a) hlt (hkept.trans hsame.symm) (last_replace _ _ _)
  | full => simp [hphase, Phase.live] at hlive
  | failed => simp [hphase, Phase.live] at hlive

/-- The edge that fails an exchange keeps no word. -/
theorem kept_of_failed {len : ℕ} {es : List (Answer β)} {a : Answer β}
    (hlive : (run len es).phase.live = true) (hf : (run len (es ++ [a])).phase = .failed) :
    (run len (es ++ [a])).kept = (run len es).kept := by
  have hresume : ∀ kept : List β, (resume kept a).phase ≠ .failed := fun kept heq => by
    have := resume_live kept a
    simp [heq, Phase.live] at this
  have hreplace : ∀ kept : List β, (replace kept a).phase ≠ .failed := fun kept heq => by
    have := replace_live kept a
    simp [heq, Phase.live] at this
  rw [run_concat, take] at hf ⊢
  cases hphase : (run len es).phase with
  | waiting =>
    rw [hphase] at hf
    dsimp only at hf ⊢
    split_ifs at hf ⊢
    · rfl
    · exact absurd hf (hresume _)
  | held w =>
    rw [hphase] at hf
    dsimp only at hf ⊢
    split_ifs at hf ⊢
    · rfl
    · exact absurd hf (hreplace _)
    · exact absurd hf (hresume _)
  | replacing =>
    rw [hphase] at hf
    dsimp only at hf ⊢
    split_ifs at hf ⊢
    · rfl
    · exact absurd hf (hreplace _)
  | full => simp [hphase, Phase.live] at hlive
  | failed => simp [hphase, Phase.live] at hlive

end Reader

end Clocked
end SloPPC603
