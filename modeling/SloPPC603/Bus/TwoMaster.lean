import Mathlib.Tactic.IntervalCases
import SloPPC603.Bus.LineRead
import SloPPC603.Bus.Scalar

/-!
# Two masters on one pin set

The scalar and the line-read master behind `ppc_bus60x_two_master.sv`, as
`ppc_core_cached_bus60x.sv` wires them.

* `step` — the clock edge of the selector and both masters.
* `Shares`, `shares_run` — a master has the pins to itself throughout a transfer.
* `waits_one_tenure`, `no_starvation` — a master that asks is passed over once at most.
-/

namespace SloPPC603
namespace Bus
namespace TwoMaster

open Clocked

/-- The inputs of one cycle. -/
structure Input where
  rstN : Bool := true
  busCe : Bool := true
  scalar : Scalar.Input := {}
  line : LineRead.Input := {}
  pins : MasterIn := {}
  d : BitVec 64 := 0

/-- The registers. -/
structure State where
  scalar : Scalar.State
  line : LineRead.State
  select : Select.State

/-- What the scalar master reads with the pins. -/
@[simp] def Input.toScalar (i : Input) : Scalar.Input :=
  { i.scalar with rstN := i.rstN, busCe := i.busCe, pins := i.pins, d := i.d }

/-- What the line-read master reads with the pins. -/
@[simp] def Input.toLine (i : Input) : LineRead.Input :=
  { i.line with rstN := i.rstN, busCe := i.busCe, pins := i.pins, d := i.d }

section Signals

variable (s : State) (i : Input)

/-- What the scalar master drives. -/
@[simp] def scalarOut : MasterOut := Scalar.out s.scalar i.toScalar

/-- What the line-read master drives. -/
@[simp] def lineOut : MasterOut := LineRead.out s.line i.toLine

/-- What the selector reads. -/
def selectInput : Select.Input where
  rstN := i.rstN
  busCe := i.busCe
  scalarBrN := (scalarOut s i).brN
  scalarBusy := Scalar.busy s.scalar i.toScalar
  scalarPinsReleased := (scalarOut s i).pinsReleased
  lineBrN := (lineOut s i).brN
  lineBusy := LineRead.busy s.line i.toLine
  linePinsReleased := (lineOut s i).pinsReleased

/-- What the scalar master reads behind the multiplexer. -/
def scalarInput : Scalar.Input :=
  { i.toScalar with pins := Mux.scalarIn s.select (selectInput s i) i.pins }

/-- What the line-read master reads behind the multiplexer. -/
def lineInput : LineRead.Input :=
  { i.toLine with pins := Mux.lineIn s.select (selectInput s i) i.pins }

/-- The pins the pair drives. -/
def out : MasterOut := Mux.out s.select (selectInput s i) (scalarOut s i) (lineOut s i)

/-- The clock edge. -/
def step : State where
  scalar := Scalar.step s.scalar (scalarInput s i)
  line := LineRead.step s.line (lineInput s i)
  select := Select.step s.select (selectInput s i)

end Signals

/-- The pair: it starts from a reset. -/
def machine : Machine State Input where
  Initial s := ∃ a b, s = ⟨Scalar.reset a, LineRead.reset b, Select.resetState⟩
  step := step

/-! ## Either side -/

/-- The two masters. -/
inductive Side where
  | scalar | line

/-- The other master. -/
@[simp] def Side.other : Side → Side
  | .scalar => .line
  | .line => .scalar

/-- The master as an owner of the pins. -/
@[simp] def Side.owner : Side → Select.Owner
  | .scalar => .scalar
  | .line => .line

/-- What a master drives. -/
@[simp] def Side.out (s : State) (i : Input) : Side → MasterOut
  | .scalar => scalarOut s i
  | .line => lineOut s i

/-- A master has the pins. -/
@[simp] def Side.selected (s : State) (i : Input) : Side → Bool
  | .scalar => Select.scalarSelected s.select (selectInput s i)
  | .line => Select.lineSelected s.select (selectInput s i)

/-- A master has nothing to do. -/
@[simp] def Side.Idle (s : State) : Side → Prop
  | .scalar => s.scalar.state = .idle
  | .line => s.line.state = .idle

/-- A master waits for the bus. -/
@[simp] def Side.Waits (s : State) : Side → Prop
  | .scalar => s.scalar.state = .addrRequest
  | .line => s.line.state = .addrRequest

/-- A master reads the pins as they are. -/
def Side.Reads (s : State) (i : Input) : Side → Prop
  | .scalar => scalarInput s i = i.toScalar
  | .line => lineInput s i = i.toLine

section Edge

variable {s : State} {i : Input}

theorem scalar_state : (step s i).scalar.state = if !i.rstN then .idle else
    if i.busCe then (Scalar.edge s.scalar (scalarInput s i)).state else s.scalar.state := by
  unfold step Scalar.step scalarInput Input.toScalar
  dsimp only
  split_ifs <;> rfl

theorem line_state : (step s i).line.state = if !i.rstN then .idle else
    if i.busCe then (LineRead.edge s.line (lineInput s i)).state else s.line.state := by
  unfold step LineRead.step lineInput Input.toLine
  dsimp only
  split_ifs <;> rfl

/-- A master that has nothing to do may ask for the bus. -/
theorem idle_step {x : Side} (h : x.Idle s) : x.Idle (step s i) ∨ x.Waits (step s i) := by
  cases x with
  | scalar =>
    rw [Side.Idle, Side.Waits, scalar_state, Scalar.edge, show s.scalar.state = _ from h]
    dsimp only
    split_ifs <;> simp
  | line =>
    rw [Side.Idle, Side.Waits, line_state, LineRead.edge, show s.line.state = _ from h]
    dsimp only
    split_ifs <;> simp

/-- **A master without the pins starts no transfer**, for no grant reaches it. -/
theorem waits_step {x : Side} (hr : i.rstN = true) (h : x.Waits s)
    (hoff : x.selected s i = false) : x.Waits (step s i) := by
  cases x with
  | scalar =>
    rw [Side.Waits, scalar_state, Scalar.edge, show s.scalar.state = _ from h,
      show (scalarInput s i).pins = {} from if_neg (Bool.eq_false_iff.1 hoff)]
    simp [MasterIn.granted, hr]
  | line =>
    rw [Side.Waits, line_state, LineRead.edge, show s.line.state = _ from h,
      show (lineInput s i).pins = {} from if_neg (Bool.eq_false_iff.1 hoff)]
    simp [MasterIn.granted, hr]

/-- The pins have one master. -/
theorem apart {x : Side} (h : x.selected s i = true) : x.other.selected s i = false := by
  cases x with
  | scalar => exact Select.apart _ _ h
  | line =>
    by_contra hs
    exact Bool.false_ne_true ((Select.apart _ _ (by simpa using hs)).symm.trans h)

theorem selected_of_owner {x : Side} (hr : i.rstN = true) (h : s.select.owner = x.owner) :
    x.selected s i = true := by
  cases x <;> simp_all [Select.scalarSelected, Select.lineSelected, selectInput]

/-- **A master keeps the pins until it has nothing to do**, and is then the last to have had
them. -/
theorem keeps {x : Side} (hr : i.rstN = true) (hb : i.busCe = true)
    (h : x.selected s i = true) : (step s i).select.owner = x.owner ∨
      x.Idle s ∧ (step s i).select.owner = .none ∧
        (step s i).select.lastCompletedLine = decide (x.owner = .line) := by
  have hapart := apart h
  cases x <;> cases hown : s.select.owner <;>
    simp_all [step, Select.step, Select.scalarSelected, Select.lineSelected, Select.chooseScalar,
      selectInput, Scalar.busy, LineRead.busy] <;>
    split_ifs <;> simp_all

section Waits

variable {x : Side} (hr : i.rstN = true) (hw : x.Waits s)
include hr hw

/-- A master that waits without the pins waits for the other one. -/
theorem other_selected (hoff : x.selected s i = false) : x.other.selected s i = true := by
  cases x <;> cases hown : s.select.owner <;>
    simp_all [Select.scalarSelected, Select.lineSelected, Select.chooseScalar, Select.chooseLine,
      selectInput, Scalar.out, LineRead.out]

/-- Free pins go to a master that waits if the other one had them last. -/
theorem selected_of_last (hown : s.select.owner = .none)
    (hlast : s.select.lastCompletedLine = decide (x.other.owner = .line)) :
    x.selected s i = true := by
  cases x <;>
    simp_all [Select.scalarSelected, Select.lineSelected, Select.chooseScalar, Select.chooseLine,
      selectInput, Scalar.out, LineRead.out]

/-- The other one keeps the pins while a master waits. -/
theorem other_keeps (hb : i.busCe = true) (hoff : x.selected s i = false) {j : Input}
    (hr' : j.rstN = true) (hoff' : x.selected (step s i) j = false) :
    (step s i).select.owner = x.other.owner := by
  refine (keeps hr hb (other_selected hr hw hoff)).resolve_right ?_
  rintro ⟨-, hown, hlast⟩
  rw [selected_of_last hr' (waits_step hr hw hoff) hown hlast] at hoff'
  cases hoff'

end Waits

/-- The selector moves on bus edges only. -/
theorem select_step (hr : i.rstN = true) (hb : i.busCe = false) : (step s i).select = s.select := by
  simp [step, Select.step, selectInput, hr, hb]

/-! ## Over a run -/

/-- No master without the pins is in a transfer. -/
structure Inv (s : State) : Prop where
  protocol : s.select.protocolError = false
  free : ∀ x : Side, s.select.owner ≠ x.owner → x.Idle s ∨ x.Waits s

theorem inv_step (h : Inv s) : Inv (step s i) where
  protocol := by
    have hsel : (Select.scalarSelected s.select (selectInput s i) &&
        Select.lineSelected s.select (selectInput s i)) = false := by
      cases hs : Select.scalarSelected s.select (selectInput s i) with
      | false => rfl
      | true => exact Select.apart _ _ hs
    simp only [step, Select.step, hsel, h.protocol, Bool.or_self]
    cases s.select.owner <;> dsimp only <;> split_ifs <;> first | rfl | exact h.protocol
  free x hx := by
    cases hr : i.rstN with
    | false => exact Or.inl (by cases x <;> simp [Side.Idle, scalar_state, line_state, hr])
    | true =>
      cases hb : i.busCe with
      | false =>
        rw [select_step hr hb] at hx
        simpa [Side.Idle, Side.Waits, scalar_state, line_state, hr, hb] using h.free x hx
      | true =>
        cases hon : x.selected s i with
        | true => exact idle_step ((keeps hr hb hon).resolve_left hx).1
        | false =>
          have hown : s.select.owner ≠ x.owner := fun hown => by
            rw [selected_of_owner hr hown] at hon
            cases hon
          exact (h.free x hown).elim idle_step fun hw => Or.inr (waits_step hr hw hon)

theorem released {x : Side} (h : i.rstN = true → x.Idle s ∨ x.Waits s) :
    (x.out s i).pinsReleased = true := by
  cases hr : i.rstN with
  | false =>
    cases x <;> simp [Scalar.out, LineRead.out, MasterOut.pinsReleased, Scalar.addrOwned,
      LineRead.addrOwned, hr]
  | true =>
    cases x <;> rcases h hr with hs | hs <;>
      simp_all [Scalar.out, LineRead.out, MasterOut.pinsReleased, Scalar.addrOwned,
        LineRead.addrOwned]

end Edge

/-- What sharing the pins leaves of two masters. -/
structure Shares (s : State) (i : Input) (l : Scalar.Log) (m : LineRead.Log) : Prop where
  protocol : s.select.protocolError = false
  apart : ∀ x : Side, x.selected s i = true → x.other.selected s i = false
  /-- A master in a transfer has the pins: it reads them as they are, and they carry what it
  drives. -/
  owns : ∀ x : Side, i.rstN = true → ¬ x.Idle s → ¬ x.Waits s →
    x.selected s i = true ∧ x.Reads s i ∧ out s i = x.out s i
  /-- A master without the pins drives none. -/
  off : ∀ x : Side, x.selected s i = false → (x.out s i).pinsReleased = true
  scalar : Scalar.Delivers s.scalar (scalarInput s i) l
  line : LineRead.Delivers s.line (lineInput s i) m

theorem shares_of_inv {s : State} {i : Input} (h : Inv s) {l : Scalar.Log} {m : LineRead.Log}
    (hl : Scalar.Delivers s.scalar (scalarInput s i) l)
    (hm : LineRead.Delivers s.line (lineInput s i) m) : Shares s i l m where
  protocol := h.protocol
  apart _ := TwoMaster.apart
  owns x hr hidle hwaits := by
    have hown : s.select.owner = x.owner := by
      by_contra hown
      exact (h.free x hown).elim hidle hwaits
    have hsel := selected_of_owner hr hown
    refine ⟨hsel, ?_, ?_⟩
    · cases x with
      | scalar => exact congrArg (fun p => { i.toScalar with pins := p }) (if_pos hsel)
      | line => exact congrArg (fun p => { i.toLine with pins := p }) (if_pos hsel)
    · cases x with
      | scalar => exact if_pos hsel
      | line => exact (if_neg (Bool.eq_false_iff.1 (TwoMaster.apart hsel))).trans (if_pos hsel)
  off x hoff := released fun hr => h.free x fun hown => by
    rw [selected_of_owner hr hown] at hoff
    cases hoff
  scalar := hl
  line := hm

section Runs

variable (r : Run machine)

/-- The scalar master of a run of the pair. -/
def scalarRun : Run Scalar.machine :=
  r.component State.scalar scalarInput (by rintro s ⟨a, b, rfl⟩; exact ⟨a, rfl⟩)

/-- The line-read master of a run of the pair. -/
def lineRun : Run LineRead.machine :=
  r.component State.line lineInput (by rintro s ⟨a, b, rfl⟩; exact ⟨b, rfl⟩)

/-- **Sharing is transparent**: two masters on one pin set deliver what each delivers alone. -/
theorem shares_run (n : ℕ) : Shares (r.state n) (r.input n) (Scalar.log (scalarRun r) n)
    (LineRead.log (lineRun r) n) := by
  have hinv : Inv (r.state n) := by
    refine Run.invariant (A := fun _ _ => True) (I := Inv) ?_ (fun _ _ h _ => inv_step h)
      fun _ _ => trivial
    rintro s ⟨a, b, rfl⟩
    exact ⟨rfl, fun x _ => Or.inl (by cases x <;> rfl)⟩
  have hscalar := Scalar.delivers_run (scalarRun r) n
  have hline := LineRead.delivers_run (lineRun r) n
  rw [show (scalarRun r).state n = _ from Run.component_state (fun _ _ => rfl) n] at hscalar
  rw [show (lineRun r).state n = _ from Run.component_state (fun _ _ => rfl) n] at hline
  exact shares_of_inv hinv hscalar hline

/-- **The selector is fair**: while a master waits the other one has the pins for one ownership. -/
theorem waits_one_tenure (x : Side) {n m : ℕ}
    (hwait : ∀ k, n ≤ k → k ≤ m → (r.input k).rstN = true ∧ x.Waits (r.state k) ∧
      x.selected (r.state k) (r.input k) = false) {k : ℕ} (hn : n ≤ k) (hm : k ≤ m) :
    x.other.selected (r.state k) (r.input k) = true ∧
      (k < m → (r.input k).busCe = true → (r.state (k + 1)).select.owner = x.other.owner) := by
  obtain ⟨hr, hw, hoff⟩ := hwait k hn hm
  refine ⟨other_selected hr hw hoff, fun hlt hb => ?_⟩
  obtain ⟨hr', -, hoff'⟩ := hwait (k + 1) (Nat.le_succ_of_le hn) hlt
  exact other_keeps hr hw hb hoff hr' hoff'

/-- Both masters ask and the bus is not granted. -/
def bothAsk : Run machine where
  start :=
    ⟨Scalar.reset ⟨.idle, false, false, 0, 0, 0, 0, 0, false, 0, false, false, 0, false, false,
      false, false, true, false⟩, LineRead.reset ⟨.idle, 0, 0, false, false, 0, 0, 0, false, false,
      false, false, false, false, false, true, false⟩, Select.resetState⟩
  initial := ⟨_, _, rfl⟩
  input _ := { scalar := { reqValid := true, reqWstrb := 0b1111 }, line := { reqValid := true } }

/-- The scalar master waits for the line read. -/
theorem waits_one_tenure_bothAsk :
    Side.line.selected (bothAsk.state 2) (bothAsk.input 2) = true ∧
      (2 < 3 → (bothAsk.input 2).busCe = true → (bothAsk.state 3).select.owner = .line) :=
  waits_one_tenure bothAsk .scalar (n := 1)
    (by intro k h1 h3; interval_cases k <;> exact ⟨rfl, Eq.refl Scalar.Phase.addrRequest, rfl⟩)
    (by decide) (by decide)

end Runs

end TwoMaster
end Bus
end SloPPC603
