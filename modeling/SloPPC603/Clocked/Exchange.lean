import Mathlib.Data.List.Basic

/-!
# Exchanges through a port

A unit takes requests on one side, and for each of them makes some accesses of a port,
takes their answers and gives one response.  `Traffic` is what has passed on the four
ways, and `Paired` says that it belongs together in order: the responses are those of
the first requests, each from its own accesses and answers, and what has passed beyond
belongs to the requests still open.

* `Served` — traffic in which every request has its response.
* `Paired` — traffic with open requests.
* `Paired.add` — the traffic of one edge.
* `Paired.response` — the response of a request, by its number.
-/

namespace SloPPC603
namespace Clocked

variable {Q A B P : Type*}

/-- What has passed: requests taken, accesses made, answers taken, responses given. -/
structure Traffic (Q A B P : Type*) where
  requests : List Q
  accesses : List A
  answers : List B
  responses : List P

namespace Traffic

/-- Nothing has passed. -/
def empty : Traffic Q A B P := ⟨[], [], [], []⟩

/-- What passes on one edge, at most one item on each way. -/
def add (t : Traffic Q A B P) (q : Option Q) (a : Option A) (b : Option B) (p : Option P) :
    Traffic Q A B P where
  requests := t.requests ++ q.toList
  accesses := t.accesses ++ a.toList
  answers := t.answers ++ b.toList
  responses := t.responses ++ p.toList

/-- Some access has not been answered. -/
def Owed (t : Traffic Q A B P) : Prop := t.answers.length < t.accesses.length

@[simp] theorem add_none (t : Traffic Q A B P) : t.add none none none none = t := by
  simp [add]

end Traffic

/-- Traffic in which every request has its response; `R` is what one request may make of
its accesses and answers. -/
inductive Served (R : Q → List A → List B → P → Prop) : Traffic Q A B P → Prop
  | empty : Served R Traffic.empty
  | snoc {t : Traffic Q A B P} {q : Q} {as : List A} {bs : List B} {p : P} (h : Served R t)
      (hone : R q as bs p) :
      Served R ⟨t.requests ++ [q], t.accesses ++ as, t.answers ++ bs, t.responses ++ [p]⟩

/-- Traffic whose open requests are `qs`, which have made the accesses `as` and taken the
answers `bs`. -/
def Paired (R : Q → List A → List B → P → Prop) (t : Traffic Q A B P) (qs : List Q)
    (as : List A) (bs : List B) : Prop :=
  ∃ d : Traffic Q A B P, Served R d ∧ t.requests = d.requests ++ qs ∧
    t.accesses = d.accesses ++ as ∧ t.answers = d.answers ++ bs ∧ t.responses = d.responses

section Rules

variable {R : Q → List A → List B → P → Prop} {t : Traffic Q A B P} {qs : List Q} {as : List A}
  {bs : List B}

theorem paired_empty : Paired R Traffic.empty [] [] [] :=
  ⟨Traffic.empty, Served.empty, rfl, rfl, rfl, rfl⟩

/-- An edge without a response adds to what is open. -/
theorem Paired.open (h : Paired R t qs as bs) (q : Option Q) (a : Option A) (b : Option B) :
    Paired R (t.add q a b none) (qs ++ q.toList) (as ++ a.toList) (bs ++ b.toList) := by
  obtain ⟨d, hd, hq, ha, hb, hp⟩ := h
  refine ⟨d, hd, ?_, ?_, ?_, ?_⟩
  · simp [Traffic.add, hq]
  · simp [Traffic.add, ha]
  · simp [Traffic.add, hb]
  · simp [Traffic.add, hp]

/-- A response closes the first open request, with its own accesses and answers. -/
theorem Paired.close {q : Q} {as' : List A} {bs' : List B} {p : P} {a : Option A} {b : Option B}
    {n : Option Q} {restQ : List Q} {restA : List A} {restB : List B}
    (h : Paired R t qs as bs) (hone : R q as' bs' p) (hq : qs ++ n.toList = q :: restQ)
    (ha : as ++ a.toList = as' ++ restA) (hb : bs ++ b.toList = bs' ++ restB) :
    Paired R (t.add n a b (some p)) restQ restA restB := by
  obtain ⟨d, hd, hdq, hda, hdb, hdp⟩ := h
  refine ⟨_, hd.snoc hone, ?_, ?_, ?_, ?_⟩
  · simp [Traffic.add, hdq, hq]
  · simp [Traffic.add, hda, ha]
  · simp [Traffic.add, hdb, hb]
  · simp [Traffic.add, hdp]

/-- As many responses as requests. -/
theorem Served.length (h : Served R t) : t.responses.length = t.requests.length := by
  induction h with
  | empty => rfl
  | snoc _ _ ih => simp [ih]

/-- **The response of a request, by its number**: it is made of accesses and answers that
follow those of the requests before. -/
theorem Served.response (h : Served R t) {k : ℕ} {p : P} (hk : t.responses[k]? = some p) :
    ∃ q as bs, t.requests[k]? = some q ∧ R q as bs p ∧
      (∃ as₀ as₁, t.accesses = as₀ ++ as ++ as₁) ∧ ∃ bs₀ bs₁, t.answers = bs₀ ++ bs ++ bs₁ := by
  induction h with
  | empty => simp [Traffic.empty] at hk
  | @snoc t q as bs p' hd hone ih =>
    have hlen := hd.length
    by_cases hlt : k < t.responses.length
    · rw [List.getElem?_append_left hlt] at hk
      obtain ⟨q', as', bs', hq', hone', ⟨as₀, as₁, ha⟩, bs₀, bs₁, hb⟩ := ih hk
      refine ⟨q', as', bs', ?_, hone', ⟨as₀, as₁ ++ as, ?_⟩, bs₀, bs₁ ++ bs, ?_⟩
      · rw [List.getElem?_append_left (by omega), hq']
      · simp [ha]
      · simp [hb]
    · have hkl : k = t.responses.length := by
        obtain ⟨hbound, -⟩ := List.getElem?_eq_some_iff.1 hk
        simp only [List.length_append, List.length_cons, List.length_nil] at hbound
        omega
      subst hkl
      rw [List.getElem?_append_right (Nat.le_refl _)] at hk
      simp only [Nat.sub_self, List.getElem?_cons_zero, Option.some.injEq] at hk
      subst hk
      refine ⟨q, as, bs, ?_, hone, ⟨t.accesses, [], by simp⟩, t.answers, [], by simp⟩
      rw [hlen, List.getElem?_append_right (Nat.le_refl _)]
      simp

/-- The responses of traffic with open requests. -/
theorem Paired.response (h : Paired R t qs as bs) {k : ℕ} {p : P}
    (hk : t.responses[k]? = some p) :
    ∃ q as' bs', t.requests[k]? = some q ∧ R q as' bs' p ∧
      (∃ as₀ as₁, t.accesses = as₀ ++ as' ++ as₁) ∧
      ∃ bs₀ bs₁, t.answers = bs₀ ++ bs' ++ bs₁ := by
  obtain ⟨d, hd, hq, ha, hb, hp⟩ := h
  rw [hp] at hk
  obtain ⟨q, as', bs', hq', hone, ⟨as₀, as₁, ha'⟩, bs₀, bs₁, hb'⟩ := hd.response hk
  refine ⟨q, as', bs', ?_, hone, ⟨as₀, as₁ ++ as, ?_⟩, bs₀, bs₁ ++ bs, ?_⟩
  · have hlt := (List.getElem?_eq_some_iff.1 hq').1
    rw [hq, List.getElem?_append_left hlt, hq']
  · simp [ha, ha']
  · simp [hb, hb']

/-- The requests not yet responded to. -/
theorem Paired.length (h : Paired R t qs as bs) :
    t.requests.length = t.responses.length + qs.length := by
  obtain ⟨d, hd, hq, -, -, hp⟩ := h
  rw [hq, hp, List.length_append, hd.length]

/-- Where every request takes an answer to each of its accesses, what is owed is owed to
the open requests. -/
theorem Paired.owed (hR : ∀ q as bs p, R q as bs p → bs.length = as.length)
    (h : Paired R t qs as bs) (hlt : bs.length < as.length) : t.Owed := by
  have hserved : ∀ {d : Traffic Q A B P}, Served R d → d.answers.length = d.accesses.length := by
    intro d hd
    induction hd with
    | empty => rfl
    | snoc _ hone ih => simp [ih, hR _ _ _ _ hone]
  obtain ⟨d, hd, -, ha, hb, -⟩ := h
  have hbal := hserved hd
  rw [Traffic.Owed, ha, hb, List.length_append, List.length_append]
  omega

end Rules

end Clocked
end SloPPC603
