import SloPPC603.Clocked.Machine
import SloPPC603.Clocked.Standing

/-!
# Pins and selectors of the 60x bus

What a 60x master drives and reads, and the two modules that share one pin set between
two masters: `ppc_bus60x_master_select.sv`, which owns the pins for one master at a
time, and `ppc_bus60x_two_master.sv`, which routes them.

* `MasterOut`, `MasterIn` — the pins of one master.
* `Select.step` — the clock edge of the selector.
* `Mux.out`, `Mux.scalarIn`, `Mux.lineIn` — the routed pins.
* `Select.apart` — the pins never have two owners.
-/

namespace SloPPC603
namespace Bus

/-! ## Pins -/

/-- What a master drives.  `abbN` and `dbbN` are the levels at the end of the cycle,
after the falling edge has negated them. -/
structure MasterOut where
  brN : Bool := true
  abbN : Bool := true
  abbOe : Bool := false
  tsN : Bool := true
  tsOe : Bool := false
  a : BitVec 32 := 0
  tt : BitVec 5 := 0
  tbstN : Bool := true
  tsiz : BitVec 3 := 0
  tc : BitVec 2 := 0
  ciN : Bool := true
  wtN : Bool := true
  gblN : Bool := true
  cse : BitVec 2 := 0
  addrOe : Bool := false
  dbbN : Bool := true
  dbbOe : Bool := false
  d : BitVec 64 := 0
  dOe : Bool := false

/-- What the address tenure of a master says of its transfer. -/
structure Attributes where
  a : BitVec 32
  tt : BitVec 5
  tbstN : Bool
  tsiz : BitVec 3
  tc : BitVec 2
  ciN : Bool
  wtN : Bool
  gblN : Bool
  cse : BitVec 2

/-- The attributes on the pins. -/
def MasterOut.attributes (p : MasterOut) : Attributes :=
  ⟨p.a, p.tt, p.tbstN, p.tsiz, p.tc, p.ciN, p.wtN, p.gblN, p.cse⟩

/-- What a master reads beside the data. -/
structure MasterIn where
  bgN : Bool := true
  abbN : Bool := true
  aackN : Bool := true
  artryN : Bool := true
  dbgN : Bool := true
  dbbN : Bool := true
  taN : Bool := true
  drtryN : Bool := true
  teaN : Bool := true

/-- A qualified bus grant, which starts an address tenure. -/
def MasterIn.granted (p : MasterIn) : Bool := !p.bgN && p.abbN && p.artryN

/-- A qualified data bus grant, which starts a data tenure. -/
def MasterIn.dataGranted (p : MasterIn) : Bool := !p.dbgN && p.dbbN && p.drtryN && p.artryN

/-- What the pins answer to a read: TA offers the data, and DRTRY and TEA judge the data of
the edge before. -/
def MasterIn.answer (p : MasterIn) (d : BitVec 64) : Clocked.Answer (BitVec 64) :=
  ⟨!p.taN, !p.drtryN, !p.teaN, d⟩

/-- The master drives no address or data pin. -/
def MasterOut.pinsReleased (p : MasterOut) : Bool :=
  !p.abbOe && !p.tsOe && !p.addrOe && !p.dbbOe && !p.dOe

/-! ## The selector -/

namespace Select

/-- `owner_t`. -/
inductive Owner where
  | none | scalar | line
  deriving DecidableEq

/-- The registers. -/
structure State where
  owner : Owner
  lastCompletedLine : Bool
  protocolError : Bool

/-- The inputs of one cycle, beside the grant. -/
structure Input where
  rstN : Bool := true
  busCe : Bool := false
  scalarBrN : Bool := true
  scalarBusy : Bool := false
  scalarPinsReleased : Bool := true
  lineBrN : Bool := true
  lineBusy : Bool := false
  linePinsReleased : Bool := true

/-- The registers while `rst_ni` is low. -/
def resetState : State where
  owner := .none
  lastCompletedLine := false
  protocolError := false

section Signals

variable (s : State) (i : Input)

/-- `choose_scalar`. -/
def chooseScalar : Bool :=
  i.rstN && s.owner = .none &&
    if !i.scalarBrN && !i.lineBrN then s.lastCompletedLine else !i.scalarBrN

/-- `choose_line`. -/
def chooseLine : Bool :=
  i.rstN && s.owner = .none &&
    if !i.scalarBrN && !i.lineBrN then !s.lastCompletedLine else !i.lineBrN

/-- `scalar_selected_o`. -/
def scalarSelected : Bool := i.rstN && (s.owner = .scalar || chooseScalar s i)

/-- `line_selected_o`. -/
def lineSelected : Bool := i.rstN && (s.owner = .line || chooseLine s i)

/-- `busy_o`. -/
def busy : Bool := i.rstN && s.owner ≠ .none

/-- The clock edge. -/
def step : State :=
  if !i.rstN then resetState
  else if !i.busCe then s
  else
    let error := s.protocolError || (scalarSelected s i && lineSelected s i)
    match s.owner with
    | .none =>
      { s with
        owner :=
          if chooseScalar s i then .scalar else if chooseLine s i then .line else .none
        protocolError := error }
    | .scalar =>
      if !i.scalarBusy && i.scalarPinsReleased then ⟨.none, false, error⟩
      else { s with protocolError := error }
    | .line =>
      if !i.lineBusy && i.linePinsReleased then ⟨.none, true, error⟩
      else { s with protocolError := error }

/-- **The pins have one owner.** -/
theorem apart (h : scalarSelected s i = true) : lineSelected s i = false := by
  simp only [scalarSelected, lineSelected, chooseScalar, chooseLine, Bool.and_eq_true,
    Bool.or_eq_true, decide_eq_true_eq] at h ⊢
  obtain ⟨hrst, hown | ⟨⟨-, hown⟩, hif⟩⟩ := h
  · simp [hown]
  · cases hs : i.scalarBrN with
    | true => simp [hs] at hif
    | false => cases hl : i.lineBrN <;> simp_all

end Signals

end Select

/-! ## The pin multiplexer -/

namespace Mux

section Signals

variable (s : Select.State) (i : Select.Input)

/-- What the selected master drives. -/
def out (scalar line : MasterOut) : MasterOut :=
  if Select.scalarSelected s i then scalar
  else if Select.lineSelected s i then line
  else {}

/-- What the scalar side reads. -/
def scalarIn (p : MasterIn) : MasterIn := if Select.scalarSelected s i then p else {}

/-- What the line side reads. -/
def lineIn (p : MasterIn) : MasterIn := if Select.lineSelected s i then p else {}

end Signals

end Mux

end Bus
end SloPPC603
