import SloPPC603.Clocked.Standing

/-!
# Words in two halves

A responder sends each word as two halves, and an adapter in front of a reader of whole words
passes it one offer for each second half.  A first half that is cancelled is replaced without
the reader's knowledge.

* `joinAll` — the whole words of a list of halves.
* `Adapter.pass`, `Adapter.take` — the adapter.
* `Aligned`, `Aligned.take` — a reader of halves and a reader of words with the adapter between.
-/

namespace SloPPC603
namespace Clocked

variable {α β : Type*} (join : α → α → β)

/-! ## Whole words -/

/-- The whole words of a list of halves, without a last half of its own. -/
def joinAll : List α → List β
  | x :: y :: xs => join x y :: joinAll xs
  | _ => []

@[simp] theorem joinAll_nil : joinAll join ([] : List α) = [] := rfl

/-- The halves of whole words. -/
def Whole (xs : List α) : Prop := xs.length % 2 = 0

variable {join}

theorem whole_of_cons {x y : α} {xs : List α} (h : Whole (x :: y :: xs)) : Whole xs := by
  unfold Whole at h ⊢
  simp only [List.length_cons] at h
  omega

theorem whole_concat_two {xs : List α} (h : Whole xs) (x y : α) : Whole (xs ++ [x] ++ [y]) := by
  unfold Whole at h ⊢
  simp only [List.length_append, List.length_cons, List.length_nil]
  omega

theorem joinAll_concat : ∀ {xs : List α}, Whole xs → ∀ x, joinAll join (xs ++ [x]) = joinAll join xs
  | [], _, _ => rfl
  | [_], h, _ => by simp [Whole] at h
  | _ :: _ :: xs, h, x => by simp [joinAll, joinAll_concat (whole_of_cons h) x]

theorem joinAll_concat_two : ∀ {xs : List α}, Whole xs → ∀ x y,
    joinAll join (xs ++ [x] ++ [y]) = joinAll join xs ++ [join x y]
  | [], _, _, _ => rfl
  | [_], h, _, _ => by simp [Whole] at h
  | _ :: _ :: xs, h, x, y => by
    have ih := joinAll_concat_two (whole_of_cons h) x y
    simp only [List.append_assoc, List.cons_append, List.nil_append, joinAll] at ih ⊢
    rw [ih]

theorem length_joinAll : ∀ {xs : List α}, Whole xs → 2 * (joinAll join xs).length = xs.length
  | [], _ => rfl
  | [_], h => by simp [Whole] at h
  | _ :: _ :: xs, h => by
    have ih := length_joinAll (whole_of_cons h)
    simp only [joinAll, List.length_cons]
    omega

/-! ## The adapter -/

/-- Which half the adapter has, and whether it stands: it waits for an offer, judges one, or
waits for a replacement. -/
inductive Half
  | h0Wait | h0Conf | h0Repl | h1Wait | h1Conf | h1Repl
  deriving DecidableEq, Repr

/-- The adapter: what it waits for and the first half of the word. -/
structure Adapter (α : Type*) where
  half : Half
  high : α

namespace Adapter

variable (join) in
/-- What the reader is told.  A first half whose cancel ends without a replacement is passed
on as a cancel, an error of the responder. -/
def pass (p : Adapter α) (a : Answer α) : Answer β :=
  match p.half with
  | .h0Wait => ⟨false, a.cancel, a.abort, join p.high a.word⟩
  | .h0Conf => ⟨a.offer && !a.cancel, false, a.abort, join p.high a.word⟩
  | .h0Repl => ⟨false, !a.cancel, a.abort, join p.high a.word⟩
  | .h1Conf => ⟨a.offer && a.cancel, a.cancel, a.abort, join p.high a.word⟩
  | _ => ⟨a.offer, a.cancel, a.abort, join p.high a.word⟩

/-- The half of an offer is the first of its word. -/
def captures (p : Adapter α) (a : Answer α) : Bool :=
  match p.half with
  | .h0Wait => a.offer
  | .h0Conf | .h0Repl => a.offer && a.cancel
  | .h1Conf => a.offer && !a.cancel
  | _ => false

/-- What the adapter waits for next. -/
def next (p : Adapter α) (a : Answer α) : Half :=
  if a.abort then .h0Wait
  else
    match p.half with
    | .h0Wait => if a.offer then .h0Conf else .h0Wait
    | .h0Conf =>
      if a.cancel then (if a.offer then .h0Conf else .h0Repl)
      else if a.offer then .h1Conf else .h1Wait
    | .h0Repl => if !a.cancel then .h0Wait else if a.offer then .h0Conf else .h0Repl
    | .h1Wait => if a.offer then .h1Conf else .h1Wait
    | .h1Conf =>
      if a.cancel then (if a.offer then .h1Conf else .h1Repl)
      else if a.offer then .h0Conf else .h0Wait
    | .h1Repl => if !a.cancel then .h0Wait else if a.offer then .h1Conf else .h1Repl

/-- One edge. -/
def take (p : Adapter α) (a : Answer α) : Adapter α :=
  ⟨p.next a, if p.captures a then a.word else p.high⟩

end Adapter

/-! ## Readers on both sides -/

/-- The reader of words waits for the first half of a word. -/
def First (join : α → α → β) (r : Reader α) (q : Reader β) : Prop :=
  q.phase = .waiting ∧ Whole r.kept ∧ q.kept = joinAll join r.kept

/-- The first half of a word stands. -/
def Second (join : α → α → β) (high : α) (r : Reader α) (q : Reader β) : Prop :=
  ∃ xs, Whole xs ∧ r.kept = xs ++ [high] ∧ q.kept = joinAll join xs

/-- A reader of halves and a reader of words, by what the adapter waits for. -/
def Aligned (join : α → α → β) (p : Adapter α) (r : Reader α) (q : Reader β) : Prop :=
  match p.half with
  | .h0Wait => r.phase = .waiting ∧ First join r q
  | .h0Conf => r.phase = .held p.high ∧ First join r q
  | .h0Repl => r.phase = .replacing ∧ First join r q
  | .h1Wait => r.phase = .waiting ∧ q.phase = .waiting ∧ Second join p.high r q
  | .h1Conf => ∃ w, r.phase = .held w ∧ q.phase = .held (join p.high w) ∧ Second join p.high r q
  | .h1Repl => r.phase = .replacing ∧ q.phase = .replacing ∧ Second join p.high r q

theorem aligned_start {p : Adapter α} (hp : p.half = .h0Wait) :
    Aligned join p Reader.start Reader.start := by
  rw [Aligned, hp]
  exact ⟨rfl, rfl, rfl, rfl⟩

/-- What an edge leaves of two readers that were in step: both go on in step, or both end. -/
def InStep (join : α → α → β) (p : Adapter α) (r : Reader α) (q : Reader β) : Prop :=
  q.kept = joinAll join r.kept ∧ r.phase.live = q.phase.live ∧
    (q.phase.live = true → Aligned join p r q)

/-- A half that may yet be lost. -/
def Unjudged (r : Reader α) : Prop := r.phase = .replacing ∨ ∃ w, r.phase = .held w

section Take

variable {p : Adapter α} {r : Reader α} {q : Reader β} {len : ℕ}

/-- What the adapter waits for is what the readers do. -/
theorem Aligned.phases (h : Aligned join p r q) : r.phase.live = true ∧
    (∀ w, q.phase = .held w → p.half = .h1Conf) ∧ (q.phase = .replacing → p.half = .h1Repl) := by
  unfold Aligned at h
  cases hp : p.half <;> simp only [hp, First] at h
  · simp [h.1, h.2.1, Reader.Phase.live]
  · simp [h.1, h.2.1, Reader.Phase.live]
  · simp [h.1, h.2.1, Reader.Phase.live]
  · simp [h.1, h.2.1, Reader.Phase.live]
  · obtain ⟨w, hr, hq, -⟩ := h
    simp [hr, hq, Reader.Phase.live]
  · simp [h.1, h.2.1, Reader.Phase.live]

/-- What may be lost after whole words is a first half. -/
theorem Aligned.first_of_whole (h : Aligned join p r q) (hu : Unjudged r) (hw : Whole r.kept) :
    p.half = .h0Conf ∨ p.half = .h0Repl := by
  have hodd : ∀ {xs : List α} {x : α}, Whole xs → ¬ Whole (xs ++ [x]) := by
    intro xs x hxs hx
    unfold Whole at hxs hx
    rw [List.length_append, List.length_singleton] at hx
    omega
  unfold Aligned at h
  rcases hu with hu | ⟨w, hu⟩ <;> cases hp : p.half <;> rw [hp] at h
  · simp [hu] at h
  · simp [hu] at h
  · exact .inr rfl
  · simp [hu] at h
  · simp [hu] at h
  · obtain ⟨-, -, xs, hxs, hk, -⟩ := h
    rw [hk] at hw
    exact absurd hw (hodd hxs)
  · simp [hu] at h
  · exact .inl rfl
  · simp [hu] at h
  · simp [hu] at h
  · obtain ⟨-, -, -, xs, hxs, hk, -⟩ := h
    rw [hk] at hw
    exact absurd hw (hodd hxs)
  · simp [hu] at h

/-- What may be lost after a first half is a second. -/
theorem Aligned.second_of_odd (h : Aligned join p r q) (hu : Unjudged r) (hw : ¬ Whole r.kept) :
    p.half = .h1Conf ∨ p.half = .h1Repl := by
  unfold Aligned at h
  rcases hu with hu | ⟨w, hu⟩ <;> cases hp : p.half <;> rw [hp] at h
  · simp [hu] at h
  · simp [hu] at h
  · exact absurd h.2.2.1 hw
  · simp [hu] at h
  · simp [hu] at h
  · exact .inr rfl
  · simp [hu] at h
  · exact absurd h.2.2.1 hw
  · simp [hu] at h
  · simp [hu] at h
  · exact .inl rfl
  · simp [hu] at h

/-- An edge on which the first half is waited for, offered or cancelled. -/
theorem First.take (h : First join r q) (a : Answer α)
    (hp : (p.half = .h0Wait ∧ r.phase = .waiting) ∨ (p.half = .h0Repl ∧ r.phase = .replacing)) :
    InStep join (p.take a) (r.take (2 * len) a) (q.take len (p.pass join a)) := by
  obtain ⟨hq, hw, hk⟩ := h
  obtain ⟨offer, cancel, abort, word⟩ := a
  rcases hp with ⟨hp, hr⟩ | ⟨hp, hr⟩ <;> cases offer <;> cases cancel <;> cases abort <;>
    simp [InStep, Aligned, First, Adapter.take, Adapter.next, Adapter.captures, Adapter.pass,
      Reader.take, Reader.resume, Reader.replace, Reader.Phase.live, hp, hr, hq, hw, hk]

/-- An edge that judges a first half. -/
theorem First.judge (h : First join r q) (a : Answer α) (hp : p.half = .h0Conf)
    (hr : r.phase = .held p.high) :
    InStep join (p.take a) (r.take (2 * len) a) (q.take len (p.pass join a)) := by
  obtain ⟨hq, hw, hk⟩ := h
  have hlen : ¬r.kept.length + 1 = 2 * len := by
    unfold Whole at hw
    omega
  have hj : joinAll join (r.kept ++ [p.high]) = joinAll join r.kept := joinAll_concat hw p.high
  obtain ⟨offer, cancel, abort, word⟩ := a
  cases offer <;> cases cancel <;> cases abort <;>
    simp [InStep, Aligned, First, Second, Adapter.take, Adapter.next, Adapter.captures,
      Adapter.pass, Reader.take, Reader.resume, Reader.replace, Reader.Phase.live, hp, hr, hq, hw,
      hk, hlen, hj]

/-- An edge on which the second half is waited for, offered or cancelled. -/
theorem Second.take (h : Second join p.high r q) (a : Answer α)
    (hp : (p.half = .h1Wait ∧ r.phase = .waiting ∧ q.phase = .waiting) ∨
      (p.half = .h1Repl ∧ r.phase = .replacing ∧ q.phase = .replacing)) :
    InStep join (p.take a) (r.take (2 * len) a) (q.take len (p.pass join a)) := by
  obtain ⟨xs, hw, hr, hk⟩ := h
  have hj : joinAll join (xs ++ [p.high]) = joinAll join xs := joinAll_concat hw p.high
  obtain ⟨offer, cancel, abort, word⟩ := a
  rcases hp with ⟨hp, hr', hq⟩ | ⟨hp, hr', hq⟩ <;> cases offer <;> cases cancel <;> cases abort <;>
    simp [InStep, Aligned, Second, Adapter.take, Adapter.next, Adapter.captures, Adapter.pass,
      Reader.take, Reader.resume, Reader.replace, Reader.Phase.live, hp, hr, hr', hq, hw, hk, hj]

/-- An edge that judges a second half. -/
theorem Second.judge (h : Second join p.high r q) (a : Answer α) {w : α} (hp : p.half = .h1Conf)
    (hr' : r.phase = .held w) (hq : q.phase = .held (join p.high w)) :
    InStep join (p.take a) (r.take (2 * len) a) (q.take len (p.pass join a)) := by
  obtain ⟨xs, hw, hr, hk⟩ := h
  have hj : joinAll join (xs ++ [p.high]) = joinAll join xs := joinAll_concat hw p.high
  have hj2 : joinAll join (xs ++ [p.high] ++ [w]) = joinAll join xs ++ [join p.high w] :=
    joinAll_concat_two hw p.high w
  have hw2 := whole_concat_two hw p.high w
  have hlen : xs.length + 1 + 1 = 2 * len ↔ (joinAll join xs).length + 1 = len := by
    have hlen : 2 * (joinAll join xs).length = xs.length := length_joinAll hw
    omega
  rw [List.append_assoc, List.singleton_append] at hj2 hw2
  obtain ⟨offer, cancel, abort, word⟩ := a
  by_cases hfull : (joinAll join xs).length + 1 = len <;>
    cases offer <;> cases cancel <;> cases abort <;>
    simp [InStep, Aligned, First, Second, Adapter.take, Adapter.next, Adapter.captures,
      Adapter.pass, Reader.take, Reader.resume, Reader.replace, Reader.Phase.live, hp, hr, hr', hq,
      hw, hk, hlen, hj, hj2, hw2, hfull]

/-- **The readers keep in step.** -/
theorem Aligned.take (h : Aligned join p r q) (a : Answer α) :
    InStep join (p.take a) (r.take (2 * len) a) (q.take len (p.pass join a)) := by
  unfold Aligned at h
  cases hp : p.half with
  | h0Wait =>
    rw [hp] at h
    exact h.2.take a (.inl ⟨hp, h.1⟩)
  | h0Conf =>
    rw [hp] at h
    exact h.2.judge a hp h.1
  | h0Repl =>
    rw [hp] at h
    exact h.2.take a (.inr ⟨hp, h.1⟩)
  | h1Wait =>
    rw [hp] at h
    exact h.2.2.take a (.inl ⟨hp, h.1, h.2.1⟩)
  | h1Conf =>
    rw [hp] at h
    obtain ⟨w, hr, hq, hs⟩ := h
    exact hs.judge a hp hr hq
  | h1Repl =>
    rw [hp] at h
    exact h.2.2.take a (.inr ⟨hp, h.1, h.2.1⟩)

end Take

end Clocked
end SloPPC603
