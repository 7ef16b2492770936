import Mathlib.Data.List.Range
import SloPPC603.Clocked.Machine

/-!
# What a run has emitted since it was last restarted

Some events of a design start its output over: a redirect, a reset.  Beside a
run of such a design stands a `Journal`, the value the last restart named and
the items emitted since.  An invariant is proved about the registers and the
journal together (`Run.invariant_history`), and `journal_of_restart` and
`journal_of_quiet` turn it into a statement about the edges of the run.

* `Journal`, `Run.journal` — the record.
* `Run.emitted` — the items of a range of edges, with no record beside the run.
* `journal_of_restart`, `journal_of_quiet` — the journal holds the items of the
  edges since the last restart.
-/

namespace SloPPC603
namespace Clocked

variable {σ ι α β : Type*}

/-- What the last restart named and the items emitted after it. -/
structure Journal (α β : Type*) where
  base : β
  items : List α

/-- The journal after an edge: a restart empties it, and any other edge adds its
items. -/
def Journal.update (restart : σ → ι → Option β) (emit : σ → ι → List α) (j : Journal α β)
    (s : σ) (i : ι) : Journal α β :=
  match restart s i with
  | some b => ⟨b, []⟩
  | none => ⟨j.base, j.items ++ emit s i⟩

namespace Run

variable {M : Machine σ ι} (r : Run M) (restart : σ → ι → Option β) (emit : σ → ι → List α)

/-- The journal kept beside a run whose start counts as a restart at `b₀`. -/
def journal (b₀ : β) (n : ℕ) : Journal α β :=
  r.history ⟨b₀, []⟩ (Journal.update restart emit) n

/-- The items of the edges from the `j`th up to, and without, the `n`th. -/
def emitted (j n : ℕ) : List α :=
  (List.range' j (n - j)).flatMap (fun k => emit (r.state k) (r.input k))

/-- The edge restarts the output. -/
def Restarts (n : ℕ) : Prop := (restart (r.state n) (r.input n)).isSome

instance (n : ℕ) : Decidable (r.Restarts restart n) :=
  inferInstanceAs (Decidable (_ = true))

variable {r restart emit}

theorem journal_succ (b₀ : β) (n : ℕ) : r.journal restart emit b₀ (n + 1) =
    (r.journal restart emit b₀ n).update restart emit (r.state n) (r.input n) := rfl

@[simp] theorem emitted_self (n : ℕ) : r.emitted emit n n = [] := by
  simp [emitted]

theorem emitted_succ {j n : ℕ} (h : j ≤ n) :
    r.emitted emit j (n + 1) = r.emitted emit j n ++ emit (r.state n) (r.input n) := by
  have hlen : n + 1 - j = (n - j) + 1 := by omega
  have hlast : j + (n - j) = n := by omega
  rw [emitted, emitted, hlen, List.range'_concat, List.flatMap_append, Nat.one_mul, hlast,
    List.flatMap_singleton]

/-- An edge that does not restart adds its items. -/
theorem journal_of_not_restarts {b₀ : β} {n : ℕ} (h : ¬ r.Restarts restart n) :
    r.journal restart emit b₀ (n + 1) = ⟨(r.journal restart emit b₀ n).base,
      (r.journal restart emit b₀ n).items ++ emit (r.state n) (r.input n)⟩ := by
  have hnone : restart (r.state n) (r.input n) = none := by
    rw [← Option.not_isSome_iff_eq_none]
    exact h
  rw [journal_succ, Journal.update, hnone]

/-- **Since the last restart.**  The journal holds what that restart named and the
items of the edges after it. -/
theorem journal_of_restart {b₀ b : β} {j n : ℕ} (hj : restart (r.state j) (r.input j) = some b)
    (hjn : j < n) (hq : Quiet (r.Restarts restart) j n) :
    r.journal restart emit b₀ n = ⟨b, r.emitted emit (j + 1) n⟩ := by
  induction n, hjn using Nat.le_induction with
  | base => rw [journal_succ, Journal.update, hj, emitted_self]
  | succ n hjn ih =>
    have hlast : ¬ r.Restarts restart n := hq n hjn (Nat.lt_succ_self n)
    have hbefore := ih (fun x hx hxn => hq x hx (Nat.lt_succ_of_lt hxn))
    rw [journal_of_not_restarts hlast, hbefore, emitted_succ hjn]

/-- **Before any restart.**  The journal holds the items of every edge. -/
theorem journal_of_quiet {b₀ : β} {n : ℕ} (hq : ∀ k < n, ¬ r.Restarts restart k) :
    r.journal restart emit b₀ n = ⟨b₀, r.emitted emit 0 n⟩ := by
  induction n with
  | zero => rw [emitted_self]; rfl
  | succ n ih =>
    have hbefore := ih (fun k hk => hq k (Nat.lt_succ_of_lt hk))
    rw [journal_of_not_restarts (hq n (Nat.lt_succ_self n)), hbefore,
      emitted_succ (Nat.zero_le n)]

end Run

end Clocked
end SloPPC603
