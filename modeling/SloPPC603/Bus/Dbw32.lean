import SloPPC603.Clocked.Halves

/-!
# 32-bit data-bus mode

`ppc_bus60x_dbw32.sv`, the half-beat tracker between a 64-bit master and pins that carry data
on DH only.

* `step` — the clock edge.
* `mAnswer_pair`, `mAnswer_single`, `step_pair` — what the master is answered.
-/

namespace SloPPC603
namespace Bus

open Clocked

namespace Dbw32

/-! ## The tracker -/

/-- The registers: `half_t` is the adapter's `Half`. -/
structure State where
  half : Half
  pair : Bool
  low : Bool
  high : BitVec 32

/-- What the tracker reads of its master and of the pins. -/
structure Input where
  rstN : Bool := true
  busCe : Bool := false
  dbw32 : Bool := true
  mTs : Bool := false
  mA29 : Bool := false
  mTbstN : Bool := true
  mTsiz : BitVec 3 := 0
  mDbbOe : Bool := false
  d : BitVec 64 := 0
  taN : Bool := true
  drtryN : Bool := true
  teaN : Bool := true
  mD : BitVec 64 := 0

section Signals

variable (t : State) (i : Input)

/-- `pair`. -/
def pairOn : Bool := i.dbw32 && t.pair

/-- `m_ta_n_o`. -/
def mTaN : Bool :=
  if pairOn t i then
    match t.half with
    | .h0Wait => true
    | .h0Conf => i.taN || !i.drtryN
    | .h0Repl => true
    | .h1Conf => i.taN || i.drtryN
    | _ => i.taN
  else i.taN

/-- `m_drtry_n_o`. -/
def mDrtryN : Bool :=
  if pairOn t i then
    match t.half with
    | .h0Conf => true
    | .h0Repl => !i.drtryN
    | _ => i.drtryN
  else i.drtryN

/-- `capture`. -/
def capture : Bool :=
  pairOn t i &&
    match t.half with
    | .h0Wait => !i.taN && i.mDbbOe
    | .h0Conf => !i.taN && !i.drtryN
    | .h0Repl => !i.taN && !i.drtryN
    | .h1Conf => !i.taN && i.drtryN && i.mDbbOe
    | _ => false

/-- `low_beat`. -/
def lowBeat : Bool :=
  if pairOn t i then t.half = .h0Conf || t.half = .h0Repl || t.half = .h1Wait || t.half = .h1Repl
  else t.low

/-- DH. -/
def dh (d : BitVec 64) : BitVec 32 := d.extractLsb' 32 32

/-- DL. -/
def dl (d : BitVec 64) : BitVec 32 := d.extractLsb' 0 32

@[simp] theorem dh_append (x y : BitVec 32) : dh (x ++ y) = x := by
  rw [dh, BitVec.extractLsb'_append_eq_left]

/-- `m_d_o`. -/
def mDOut : BitVec 64 :=
  if !i.dbw32 then i.d else (if pairOn t i then t.high else dh i.d) ++ dh i.d

/-- `d_o`. -/
def dOut : BitVec 64 :=
  if !i.dbw32 then i.mD else (if lowBeat t i then dl i.mD else dh i.mD) ++ 0#32

/-- `state_q` after a bus edge that stays in its tenure. -/
def nextHalf : Half :=
  match t.half with
  | .h0Wait => if capture t i then .h0Conf else .h0Wait
  | .h0Conf =>
    if !i.drtryN then (if i.taN then .h0Repl else .h0Conf)
    else if i.taN then .h1Wait else .h1Conf
  | .h0Repl => if i.drtryN then .h0Wait else if !i.taN then .h0Conf else .h0Repl
  | .h1Wait => if !i.mDbbOe then .h0Wait else if !i.taN then .h1Conf else .h1Wait
  | .h1Conf =>
    if !i.drtryN then (if i.taN then .h1Repl else .h1Conf)
    else if capture t i then .h0Conf else .h0Wait
  | .h1Repl => if i.drtryN then .h0Wait else if !i.taN then .h1Conf else .h1Repl

/-- The clock edge. -/
def step : State :=
  let high := if i.busCe && capture t i then dh i.d else t.high
  if !i.rstN then ⟨.h0Wait, false, false, high⟩
  else if i.busCe then
    { half := if !pairOn t i || !i.teaN || i.mTs then .h0Wait else nextHalf t i
      pair := if i.mTs then !i.mTbstN || i.mTsiz = 0 else t.pair
      low := if i.mTs then i.mA29 else t.low
      high := high }
  else { t with high := high }

end Signals

/-- A doubleword of two beats. -/
def joinWords (x y : BitVec 32) : BitVec 64 := x ++ y

/-- A word on both lanes. -/
def dup (a : Answer (BitVec 32)) : Answer (BitVec 64) := { a with word := a.word ++ a.word }

section Adapter

variable {t : State} {i : Input}

/-- What the pins answer. -/
def answer (i : Input) : Answer (BitVec 32) := ⟨!i.taN, !i.drtryN, !i.teaN, dh i.d⟩

/-- What the master is answered. -/
def mAnswer (t : State) (i : Input) : Answer (BitVec 64) :=
  ⟨!mTaN t i, !mDrtryN t i, !i.teaN, mDOut t i⟩

/-- For two beats a doubleword the tracker is the adapter. -/
theorem mAnswer_pair (hd : i.dbw32 = true) (hp : t.pair = true) :
    mAnswer t i = Adapter.pass joinWords ⟨t.half, t.high⟩ (answer i) := by
  have hon : pairOn t i = true := by simp [pairOn, hd, hp]
  unfold mAnswer mTaN mDrtryN mDOut Adapter.pass answer
  cases hh : t.half <;> simp [hon, hd, joinWords]

/-- For one beat it passes the pins on, DH on both lanes. -/
theorem mAnswer_single (hd : i.dbw32 = true) (hp : t.pair = false) :
    mAnswer t i = dup (answer i) := by
  have hon : pairOn t i = false := by simp [pairOn, hp]
  simp [mAnswer, mTaN, mDrtryN, mDOut, hon, hd, dup, answer]

/-- The tracker goes on as the adapter does while the master owns the data bus, or where that
does not matter. -/
theorem step_pair (hr : i.rstN = true) (hb : i.busCe = true) (hd : i.dbw32 = true)
    (hp : t.pair = true) (hts : i.mTs = false)
    (hown : i.mDbbOe = true ∨ t.half = .h1Repl ∨ (t.half = .h1Conf ∧ i.drtryN = false)) :
    (⟨(step t i).half, (step t i).high⟩ : Adapter (BitVec 32)) =
      Adapter.take ⟨t.half, t.high⟩ (answer i) := by
  have hon : pairOn t i = true := by simp [pairOn, hd, hp]
  unfold step nextHalf Adapter.take Adapter.next Adapter.captures capture answer
  rcases hown with ho | ho | ⟨ho, hdr⟩
  · cases t.half <;> cases i.taN <;> cases i.drtryN <;> cases i.teaN <;> simp [hr, hb, hon, hts, ho]
  · cases i.taN <;> cases i.drtryN <;> cases i.teaN <;> simp [hr, hb, hon, hts, ho]
  · cases i.taN <;> cases i.teaN <;> simp [hr, hb, hon, hts, ho, hdr]

/-- The master does not see a DRTRY on a first beat. -/
theorem first_unseen (hd : i.dbw32 = true) (hp : t.pair = true)
    (hhalf : t.half = .h0Conf ∨ t.half = .h0Repl) (hdr : i.drtryN = false) :
    mTaN t i = true ∧ mDrtryN t i = true := by
  have hon : pairOn t i = true := by simp [pairOn, hd, hp]
  rcases hhalf with hh | hh <;> simp [mTaN, mDrtryN, hon, hh, hdr]

/-- It sees one on a second beat, and the high word stays. -/
theorem second_seen (hd : i.dbw32 = true) (hp : t.pair = true)
    (hhalf : t.half = .h1Conf ∨ t.half = .h1Repl) (hdr : i.drtryN = false) :
    mDrtryN t i = false ∧ (step t i).high = t.high := by
  have hon : pairOn t i = true := by simp [pairOn, hd, hp]
  have hcap : capture t i = false := by
    rcases hhalf with hh | hh <;> simp [capture, hh, hdr]
  refine ⟨?_, ?_⟩
  · rcases hhalf with hh | hh <;> simp [mDrtryN, hon, hh, hdr]
  · rw [step, hcap]
    cases i.rstN <;> cases i.busCe <;> rfl

/-- Without a cancel the tracker shows the high word until the pins take it. -/
theorem write_first (hr : i.rstN = true) (hb : i.busCe = true) (hd : i.dbw32 = true)
    (hp : t.pair = true) (hts : i.mTs = false) (ho : i.mDbbOe = true) (htea : i.teaN = true)
    (hhalf : t.half = .h0Wait ∨ (t.half = .h1Conf ∧ i.drtryN = true)) :
    mTaN t i = true ∧ dh (dOut t i) = dh i.mD ∧
      (step t i).half = if i.taN then .h0Wait else .h0Conf := by
  have hon : pairOn t i = true := by simp [pairOn, hd, hp]
  unfold step nextHalf capture mTaN dOut lowBeat
  rcases hhalf with hh | ⟨hh, hdr⟩ <;> cases hta : i.taN <;>
    simp [*]

/-- Then the low word, and the master is told of its TA. -/
theorem write_second (hr : i.rstN = true) (hb : i.busCe = true) (hd : i.dbw32 = true)
    (hp : t.pair = true) (hts : i.mTs = false) (ho : i.mDbbOe = true) (htea : i.teaN = true)
    (hhalf : t.half = .h1Wait ∨ (t.half = .h0Conf ∧ i.drtryN = true)) :
    mTaN t i = i.taN ∧ dh (dOut t i) = dl i.mD ∧
      (step t i).half = if i.taN then .h1Wait else .h1Conf := by
  have hon : pairOn t i = true := by simp [pairOn, hd, hp]
  unfold step nextHalf capture mTaN dOut lowBeat
  rcases hhalf with hh | ⟨hh, hdr⟩ <;> cases hta : i.taN <;>
    simp [*]

/-- A write of one beat shows the word of its address. -/
theorem write_single (hd : i.dbw32 = true) (hp : t.pair = false) :
    mTaN t i = i.taN ∧ dh (dOut t i) = if t.low then dl i.mD else dh i.mD := by
  have hon : pairOn t i = false := by simp [pairOn, hp]
  cases hl : t.low <;> simp [mTaN, dOut, lowBeat, hon, hd, hl]

end Adapter

end Dbw32
end Bus
end SloPPC603
