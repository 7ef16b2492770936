import Mathlib.Data.List.Basic
import SloPPC603.Clocked.Machine

/-!
# Stores whose updates may be prepared first

A service keeps a store and takes requests one at a time.  Most requests act and
are answered at once; a prepared one is answered and held, and a later commit
performs it or an abort drops it.  `Service` says what the requests mean, and a
`Ledger` beside a run of the machine writes down which of them took effect, in
order: an aborted request never enters it.

* `Keeper.Settles` — the machine's store is what the ledger's requests make of
  the store it started from, and the answer it offers is theirs.
* `Keeper.Exclusive` — nothing else happens to the store while a request is held.
* `Keeper.AllOrNothing`, `Keeper.allOrNothing` — a prepared request leaves the
  store alone until it is performed, once and whole, or dropped without a trace.
-/

namespace SloPPC603
namespace Clocked

variable {σ ι S R A : Type*}

/-! ## Requests and what edges do with them -/

/-- What the requests of a store mean. -/
structure Service (S R A : Type*) where
  /-- The store after a request. -/
  perform : R → S → S
  /-- The answer to a request, from the store it finds. -/
  answer : R → S → A

/-- What an edge does to the store. -/
inductive Action (S : Type*)
  | none
  | reset (s : S)
  | perform
  | hold
  | commit
  | abort

/-- What an edge does with requests: the one it takes, whether it answers, and what
it does to the store. -/
structure Edge (S R : Type*) where
  taken : Option R
  answers : Bool
  action : Action S

/-- The requests of a run since its last reset: the store they found, those that
took effect, the last one taken, the one held, and the last answer due. -/
structure Ledger (S R A : Type*) where
  base : S
  settled : List R
  taken : Option R
  held : Option R
  shown : Option A

namespace Ledger

variable (v : Service S R A) (l : Ledger S R A) (e : Edge S R)

/-- The ledger of a run that starts with the store `s`. -/
def start (s : S) : Ledger S R A := ⟨s, [], .none, .none, .none⟩

/-- The store the settled requests make. -/
def store : S := l.settled.foldl (fun s r => v.perform r s) l.base

/-- The request an edge is about: the one it takes, else the last one taken. -/
def current : Option R := e.taken <|> l.taken

/-- The requests settled after an edge. -/
def nextSettled : List R :=
  match e.action with
  | .reset _ => []
  | .perform => l.settled ++ (l.current e).toList
  | .commit => l.settled ++ l.held.toList
  | _ => l.settled

/-- The request held after an edge. -/
def nextHeld : Option R :=
  match e.action with
  | .hold => l.current e
  | .none | .perform => l.held
  | _ => none

/-- The ledger after an edge. -/
def update : Ledger S R A where
  base := match e.action with | .reset s => s | _ => l.base
  settled := l.nextSettled e
  taken := l.current e
  held := l.nextHeld e
  shown := if e.answers then (l.current e).map (fun r => v.answer r (l.store v)) else l.shown

variable {v l e}

theorem store_idle (h : e.action = .none) : (l.update v e).store v = l.store v := by
  simp [store, update, nextSettled, h]

theorem store_perform {r : R} (h : e.action = .perform) (hr : l.current e = some r) :
    (l.update v e).store v = v.perform r (l.store v) := by
  simp [store, update, nextSettled, h, hr]

theorem store_hold (h : e.action = .hold) : (l.update v e).store v = l.store v := by
  simp [store, update, nextSettled, h]

theorem store_commit {r : R} (h : e.action = .commit) (hr : l.held = some r) :
    (l.update v e).store v = v.perform r (l.store v) := by
  simp [store, update, nextSettled, h, hr]

theorem store_abort (h : e.action = .abort) : (l.update v e).store v = l.store v := by
  simp [store, update, nextSettled, h]

end Ledger

/-! ## Machines that keep a store -/

/-- How a machine keeps a store: where it is, what an edge does, the answer on
offer, and whether a request is held. -/
structure Keeper (M : Machine σ ι) (S R A : Type*) where
  store : σ → S
  edge : σ → ι → Edge S R
  shown : σ → Option A
  prepared : σ → Bool

namespace Keeper

variable {M : Machine σ ι} (k : Keeper M S R A) (v : Service S R A)

/-- The registers agree with the ledger. -/
structure Settles (s : σ) (l : Ledger S R A) : Prop where
  store : k.store s = l.store v
  shown : ∀ a, k.shown s = some a → l.shown = some a
  held : k.prepared s = l.held.isSome

/-- While a request is held the store is only touched by its commit. -/
def Exclusive (s : σ) (i : ι) : Prop :=
  k.prepared s = true → (k.edge s i).action ≠ .perform ∧ (k.edge s i).action ≠ .hold

/-- The ledger beside a run. -/
def ledger (r : Run M) (n : ℕ) : Ledger S R A :=
  r.history (Ledger.start (k.store r.start)) (fun l s i => l.update v (k.edge s i)) n

/-- The edge settles, drops or resets what is held. -/
def Ends (r : Run M) (n : ℕ) : Prop :=
  match (k.edge (r.state n) (r.input n)).action with
  | .commit | .abort | .reset _ => True
  | _ => False

/-- **All or nothing.**  Along every run the store is what the settled requests make
of it, and every answer on offer is the one due from the store of its time; and a
request held on edge `j` leaves the store alone up to the edge that ends it, which
performs it whole if it commits and leaves no trace of it if it aborts. -/
def AllOrNothing : Prop :=
  ∀ (r : Run M), (∀ n, k.Settles v (r.state n) (k.ledger v r n)) ∧
    ∀ j n q, (k.edge (r.state j) (r.input j)).action = .hold →
      (k.ledger v r j).current (k.edge (r.state j) (r.input j)) = some q → j < n →
      Run.Quiet (k.Ends r) j n →
      (k.ledger v r n).held = some q ∧ k.store (r.state n) = k.store (r.state j) ∧
      ((k.edge (r.state n) (r.input n)).action = .abort →
        k.store (r.state (n + 1)) = k.store (r.state j) ∧
        (k.ledger v r (n + 1)).settled = (k.ledger v r j).settled ∧
        (k.ledger v r (n + 1)).held = none) ∧
      ((k.edge (r.state n) (r.input n)).action = .commit →
        k.store (r.state (n + 1)) = v.perform q (k.store (r.state j)) ∧
        (k.ledger v r (n + 1)).settled = (k.ledger v r j).settled ++ [q] ∧
        (k.ledger v r (n + 1)).held = none)

/-! ## The rule -/

variable {k v} {r : Run M}

theorem ledger_succ (n : ℕ) : k.ledger v r (n + 1) =
    (k.ledger v r n).update v (k.edge (r.state n) (r.input n)) := rfl

/-- A held request is still held, and nothing has settled since, as long as no edge
ends it. -/
theorem held_of_quiet (hexcl : ∀ n, k.Exclusive (r.state n) (r.input n))
    (hset : ∀ n, k.Settles v (r.state n) (k.ledger v r n)) {j n : ℕ} {q : R}
    (hhold : (k.edge (r.state j) (r.input j)).action = .hold)
    (hq : (k.ledger v r j).current (k.edge (r.state j) (r.input j)) = some q) (hjn : j < n)
    (hquiet : Run.Quiet (k.Ends r) j n) :
    (k.ledger v r n).held = some q ∧ (k.ledger v r n).store v = (k.ledger v r j).store v ∧
      (k.ledger v r n).settled = (k.ledger v r j).settled := by
  induction n, hjn using Nat.le_induction with
  | base =>
    rw [ledger_succ]
    refine ⟨?_, Ledger.store_hold hhold, ?_⟩
    · simp [Ledger.update, Ledger.nextHeld, hhold, hq]
    · simp [Ledger.update, Ledger.nextSettled, hhold]
  | succ n hjn ih =>
    obtain ⟨hheld, hstore, hsettled⟩ := ih (fun x hx hxn => hquiet x hx (Nat.lt_succ_of_lt hxn))
    have hprep : k.prepared (r.state n) = true := by rw [(hset n).held, hheld]; rfl
    obtain ⟨hperform, hhold'⟩ := hexcl n hprep
    have hnone : (k.edge (r.state n) (r.input n)).action = .none := by
      have hends := hquiet n hjn (Nat.lt_succ_self n)
      unfold Ends at hends
      cases hact : (k.edge (r.state n) (r.input n)).action <;> simp_all
    rw [ledger_succ, Ledger.store_idle hnone]
    refine ⟨?_, hstore, ?_⟩
    · simpa [Ledger.update, Ledger.nextHeld, hnone] using hheld
    · simpa [Ledger.update, Ledger.nextSettled, hnone] using hsettled

/-- **The rule.**  A machine whose registers agree with the ledger all along its runs,
and that leaves the store alone while a request is held, is all or nothing. -/
theorem allOrNothing (hset : ∀ (r : Run M) n, k.Settles v (r.state n) (k.ledger v r n))
    (hexcl : ∀ (r : Run M) n, k.Exclusive (r.state n) (r.input n)) : k.AllOrNothing v := by
  intro r
  refine ⟨hset r, ?_⟩
  intro j n q hhold hq hjn hquiet
  obtain ⟨hheld, hstore, hsettled⟩ := held_of_quiet (hexcl r) (hset r) hhold hq hjn hquiet
  have hstore' : k.store (r.state n) = k.store (r.state j) := by
    rw [(hset r n).store, hstore, (hset r j).store]
  refine ⟨hheld, hstore', ?_, ?_⟩
  · intro habort
    refine ⟨?_, ?_, ?_⟩
    · rw [(hset r (n + 1)).store, ledger_succ, Ledger.store_abort habort, hstore, (hset r j).store]
    · rw [ledger_succ, ← hsettled]
      simp [Ledger.update, Ledger.nextSettled, habort]
    · simp [ledger_succ, Ledger.update, Ledger.nextHeld, habort]
  · intro hcommit
    refine ⟨?_, ?_, ?_⟩
    · rw [(hset r (n + 1)).store, ledger_succ, Ledger.store_commit hcommit hheld, hstore,
        (hset r j).store]
    · rw [ledger_succ, ← hsettled]
      simp [Ledger.update, Ledger.nextSettled, hcommit, hheld]
    · simp [ledger_succ, Ledger.update, Ledger.nextHeld, hcommit]

/-- An invariant of the registers and the ledger holds all along a run. -/
theorem ledger_invariant {I : σ → Ledger S R A → Prop}
    (hstart : ∀ s, M.Initial s → I s (Ledger.start (k.store s)))
    (hstep : ∀ s l i, I s l → I (M.step s i) (l.update v (k.edge s i))) (n : ℕ) :
    I (r.state n) (k.ledger v r n) := by
  induction n with
  | zero => exact hstart _ r.initial
  | succ n ih => exact hstep _ _ _ ih

end Keeper

end Clocked
end SloPPC603
