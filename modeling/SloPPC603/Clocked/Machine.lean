import Mathlib.Order.Basic
import Mathlib.Data.Nat.Init

/-!
# Clocked machines and their runs

A clocked design is a step function: on every edge of its one clock the
registers take values computed from their old values and the inputs of that
cycle.  This file says what a run of such a design is and how an invariant of
it is proved, for any state and any input.

* `Machine`, `Run`, `Run.state` — the design, a run of it from a legal start,
  and the registers after `n` edges.
* `Run.Obeys` — an assumption about the environment, held on every edge before
  the `n`th.  A run need not obey it for ever, so a statement about the first
  `n` edges asks nothing of the later ones.
* `Run.invariant` — what holds at the start and survives every obedient edge
  holds in every state an obedient run reaches.
* `Run.Quiet` — an event that has not happened since some edge.
* `Run.history` — a record kept beside a run, computed from its states and
  inputs and read by nothing; `Run.invariant_history` is the invariant rule for
  a run and its record together.
* `Run.ObeysRecord` — an assumption about the environment that reads the record.
-/

namespace SloPPC603
namespace Clocked

variable {σ ι η : Type*}

/-! ## Runs -/

/-- A clocked design: the states it may start in and what one clock edge does. -/
structure Machine (σ ι : Type*) where
  /-- The states a run may start in. -/
  Initial : σ → Prop
  /-- The registers after an edge, from those before it and the cycle's inputs. -/
  step : σ → ι → σ

/-- A run: a legal start and the inputs of every cycle. -/
structure Run (M : Machine σ ι) where
  /-- The registers before the first edge. -/
  start : σ
  /-- The start is a legal one. -/
  initial : M.Initial start
  /-- The inputs of each cycle. -/
  input : ℕ → ι

namespace Run

variable {M : Machine σ ι}

/-- The registers after `n` edges. -/
def state (r : Run M) : ℕ → σ
  | 0 => r.start
  | n + 1 => M.step (r.state n) (r.input n)

variable (r : Run M)

@[simp] theorem state_zero : r.state 0 = r.start := rfl

theorem state_succ (n : ℕ) : r.state (n + 1) = M.step (r.state n) (r.input n) := rfl

/-- The environment keeps the assumption `A` on each of the first `n` edges. -/
def Obeys (A : σ → ι → Prop) (n : ℕ) : Prop :=
  ∀ k < n, A (r.state k) (r.input k)

variable {r}

theorem Obeys.mono {A : σ → ι → Prop} {m n : ℕ} (h : r.Obeys A n) (hmn : m ≤ n) :
    r.Obeys A m := fun k hk => h k (Nat.lt_of_lt_of_le hk hmn)

theorem Obeys.imp {A B : σ → ι → Prop} {n : ℕ} (hAB : ∀ s i, A s i → B s i)
    (h : r.Obeys A n) : r.Obeys B n := fun k hk => hAB _ _ (h k hk)

/-- **The invariant rule.**  A property of the start that every obedient edge
preserves holds after any number of obedient edges. -/
theorem invariant {A : σ → ι → Prop} {I : σ → Prop} (hstart : ∀ s, M.Initial s → I s)
    (hstep : ∀ s i, I s → A s i → I (M.step s i)) {n : ℕ} (h : r.Obeys A n) :
    I (r.state n) := by
  induction n with
  | zero => exact hstart _ r.initial
  | succ n ih =>
    have hn : I (r.state n) := ih (h.mono (Nat.le_succ n))
    exact hstep _ _ hn (h n (Nat.lt_succ_self n))

/-! ## Records kept beside a run -/

/-- A record kept beside the run: `h₀` before the first edge, updated on each
edge from the registers and the inputs of that cycle. -/
def history (r : Run M) (h₀ : η) (upd : η → σ → ι → η) : ℕ → η
  | 0 => h₀
  | n + 1 => upd (r.history h₀ upd n) (r.state n) (r.input n)

@[simp] theorem history_zero (h₀ : η) (upd : η → σ → ι → η) : r.history h₀ upd 0 = h₀ := rfl

theorem history_succ (h₀ : η) (upd : η → σ → ι → η) (n : ℕ) :
    r.history h₀ upd (n + 1) = upd (r.history h₀ upd n) (r.state n) (r.input n) := rfl

/-- The environment keeps the assumption `A`, which may read the record, on each of
the first `n` edges. -/
def ObeysRecord (r : Run M) (h₀ : η) (upd : η → σ → ι → η) (A : σ → η → ι → Prop) (n : ℕ) :
    Prop :=
  ∀ k < n, A (r.state k) (r.history h₀ upd k) (r.input k)

theorem ObeysRecord.mono {h₀ : η} {upd : η → σ → ι → η} {A : σ → η → ι → Prop} {m n : ℕ}
    (h : r.ObeysRecord h₀ upd A n) (hmn : m ≤ n) : r.ObeysRecord h₀ upd A m :=
  fun k hk => h k (Nat.lt_of_lt_of_le hk hmn)

/-- **The invariant rule with a record.**  The invariant may relate the registers to
the record, and the assumption may read it. -/
theorem invariant_record {A : σ → η → ι → Prop} {I : σ → η → Prop} {h₀ : η}
    {upd : η → σ → ι → η} (hstart : ∀ s, M.Initial s → I s h₀)
    (hstep : ∀ s h i, I s h → A s h i → I (M.step s i) (upd h s i)) {n : ℕ}
    (h : r.ObeysRecord h₀ upd A n) : I (r.state n) (r.history h₀ upd n) := by
  induction n with
  | zero => exact hstart _ r.initial
  | succ n ih =>
    have hn := ih (h.mono (Nat.le_succ n))
    exact hstep _ _ _ hn (h n (Nat.lt_succ_self n))

/-- The rule for an assumption that does not read the record. -/
theorem invariant_history {A : σ → ι → Prop} {I : σ → η → Prop} {h₀ : η}
    {upd : η → σ → ι → η} (hstart : ∀ s, M.Initial s → I s h₀)
    (hstep : ∀ s h i, I s h → A s i → I (M.step s i) (upd h s i)) {n : ℕ} (h : r.Obeys A n) :
    I (r.state n) (r.history h₀ upd n) :=
  invariant_record (A := fun s _ i => A s i) hstart hstep h

/-! ## Components -/

section Component

variable {τ κ : Type*} {N : Machine τ κ} {f : σ → τ} {g : σ → ι → κ}
  {h₀ : ∀ s, M.Initial s → N.Initial (f s)}

/-- A component of a design, on the inputs the design gives it. -/
def component (r : Run M) (f : σ → τ) (g : σ → ι → κ)
    (h₀ : ∀ s, M.Initial s → N.Initial (f s)) : Run N where
  start := f r.start
  initial := h₀ _ r.initial
  input n := g (r.state n) (r.input n)

/-- A component whose edges are edges of the design has the design's registers. -/
theorem component_state (hstep : ∀ s i, f (M.step s i) = N.step (f s) (g s i)) (n : ℕ) :
    (r.component f g h₀).state n = f (r.state n) := by
  induction n with
  | zero => rfl
  | succ n ih =>
    rw [state_succ, ih, state_succ, hstep]
    rfl

end Component

/-! ## What has not happened since -/

/-- `B` holds of no edge strictly between the `j`th and the `n`th. -/
def Quiet (B : ℕ → Prop) (j n : ℕ) : Prop := ∀ x, j < x → x < n → ¬ B x

theorem quiet_self (B : ℕ → Prop) (n : ℕ) : Quiet B n (n + 1) :=
  fun _ h1 h2 => absurd (Nat.lt_of_lt_of_le h1 (Nat.le_of_lt_succ h2)) (Nat.lt_irrefl n)

theorem Quiet.succ {B : ℕ → Prop} {j n : ℕ} (h : Quiet B j n) (hn : ¬ B n) :
    Quiet B j (n + 1) := by
  intro x hj hx
  rcases Nat.lt_succ_iff_lt_or_eq.1 hx with hlt | rfl
  · exact h x hj hlt
  · exact hn

end Run

end Clocked
end SloPPC603
